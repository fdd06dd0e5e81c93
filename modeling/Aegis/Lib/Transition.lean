import Mathlib.Order.Basic
import Mathlib.Logic.Function.Basic

/-! Labelled transition systems given by a partial step function, the runs whose
steps all meet a side condition, and precedence of events in a trace. -/
namespace Transition

variable {σ ℓ : Type*}

/-- States reached from `init` by steps that all meet `ok`. With `ok` trivial
these are the reachable states. -/
inductive Reach (step : σ → ℓ → Option σ) (init : σ → Prop) (ok : σ → ℓ → Prop) : σ → Prop where
  | start {s : σ} : init s → Reach step init ok s
  | next {s s' : σ} {l : ℓ} : Reach step init ok s → ok s l → step s l = some s' →
      Reach step init ok s'

/-- The side condition that admits every step. -/
def anyStep (_ : σ) (_ : ℓ) : Prop := True

/-- Execute a list of labels from the left. -/
def exec (step : σ → ℓ → Option σ) : σ → List ℓ → Option σ
  | s, [] => some s
  | s, l :: ls => (step s l).bind fun s' => exec step s' ls

/-- A run of two parts is a run of the first and then one of the second. -/
theorem exec_append (step : σ → ℓ → Option σ) (s : σ) (ls ks : List ℓ) :
    exec step s (ls ++ ks) = (exec step s ls).bind fun u => exec step u ks := by
  induction ls generalizing s with
  | nil => rfl
  | cons l ls ih =>
    rw [List.cons_append, exec, exec, Option.bind_assoc]
    exact congrArg _ (funext fun u => ih u)

/-- Every step of a run meets `ok` in the state that it starts from. -/
def Steps (step : σ → ℓ → Option σ) (ok : σ → ℓ → Prop) : σ → List ℓ → Prop
  | _, [] => True
  | s, l :: ls => ok s l ∧ ∀ s', step s l = some s' → Steps step ok s' ls

/-- What a step keeps exactly when the step meets `ok` is kept by a run exactly when all its
steps do. -/
theorem exec_iff_steps {step : σ → ℓ → Option σ} {ok : σ → ℓ → Prop} {Inv Good : σ → Prop}
    (hinv : ∀ s l s', Inv s → step s l = some s' → Inv s')
    (hgood : ∀ s l s', Inv s → step s l = some s' → (Good s' ↔ Good s ∧ ok s l))
    {s s' : σ} {ls : List ℓ} (hs : Inv s) (he : exec step s ls = some s') :
    Good s' ↔ Good s ∧ Steps step ok s ls := by
  induction ls generalizing s with
  | nil =>
    cases he
    simp only [Steps, and_true]
  | cons l ls ih =>
    obtain ⟨u, hu, he⟩ := Option.bind_eq_some_iff.mp he
    have hnext : (∀ v, step s l = some v → Steps step ok v ls) ↔ Steps step ok u ls := by
      simp only [hu, Option.some.injEq, forall_eq']
    rw [ih (hinv s l u hs hu) he, hgood s l u hs hu, Steps, hnext, and_assoc]

/-- The condition on every step of a run holds of the step that follows an executed part of it. -/
theorem Steps.of_append {step : σ → ℓ → Option σ} {ok : σ → ℓ → Prop} {s s' : σ} {ls ks : List ℓ}
    {l : ℓ} (h : Steps step ok s (ls ++ l :: ks)) (he : exec step s ls = some s') : ok s' l := by
  induction ls generalizing s with
  | nil =>
    cases he
    exact h.1
  | cons k ls ih =>
    obtain ⟨u, hu, he⟩ := Option.bind_eq_some_iff.mp he
    exact ih (h.2 u hu) he

/-- Two conditions that agree in every state of an invariant, which they let every step keep, are
met by the steps of the same runs. -/
theorem steps_iff {step : σ → ℓ → Option σ} {P Q : σ → ℓ → Prop} (Inv : σ → Prop)
    (hagree : ∀ s l, Inv s → (P s l ↔ Q s l))
    (hinv : ∀ s l s', Inv s → P s l → step s l = some s' → Inv s')
    {s : σ} (hs : Inv s) (ls : List ℓ) : Steps step P s ls ↔ Steps step Q s ls := by
  induction ls generalizing s with
  | nil => exact Iff.rfl
  | cons l ls ih =>
    unfold Steps
    constructor
    · rintro ⟨hl, hnext⟩
      exact ⟨(hagree s l hs).mp hl, fun s' hs' => (ih (hinv s l s' hs hl hs')).mp (hnext s' hs')⟩
    · rintro ⟨hl, hnext⟩
      have hp := (hagree s l hs).mpr hl
      exact ⟨hp, fun s' hs' => (ih (hinv s l s' hs hp hs')).mpr (hnext s' hs')⟩

section Reach

variable {step : σ → ℓ → Option σ} {init : σ → Prop} {ok ok' : σ → ℓ → Prop}

theorem Reach.mono (h : ∀ s l, ok s l → ok' s l) {s : σ} (hr : Reach step init ok s) :
    Reach step init ok' s := by
  induction hr with
  | start hi => exact .start hi
  | next _ ho hs ih => exact .next ih (h _ _ ho) hs

theorem Reach.any {s : σ} (hr : Reach step init ok s) : Reach step init anyStep s :=
  hr.mono fun _ _ _ => trivial

/-- The invariant rule: what holds initially and is preserved by every admitted
step from a reached state holds in every reached state. -/
theorem Reach.invariant {P : σ → Prop} (hinit : ∀ s, init s → P s)
    (hstep : ∀ s l s', Reach step init ok s → P s → ok s l → step s l = some s' → P s')
    {s : σ} (hr : Reach step init ok s) : P s := by
  induction hr with
  | start hi => exact hinit _ hi
  | next hr ho hs ih => exact hstep _ _ _ hr ih ho hs

/-- Executing labels from a reached state stays within the reached states. -/
theorem Reach.exec {s s' : σ} {ls : List ℓ} (hr : Reach step init anyStep s)
    (he : exec step s ls = some s') : Reach step init anyStep s' := by
  induction ls generalizing s with
  | nil => cases he; exact hr
  | cons l ls ih =>
    obtain ⟨u, hu, he⟩ := Option.bind_eq_some_iff.mp he
    exact ih (hr.next trivial hu) he

/-- Executing labels that meet a side condition in every state. -/
theorem Reach.execAll {s s' : σ} {ls : List ℓ} (hr : Reach step init ok s)
    (hok : ∀ l ∈ ls, ∀ u, ok u l) (he : Transition.exec step s ls = some s') :
    Reach step init ok s' := by
  induction ls generalizing s with
  | nil => cases he; exact hr
  | cons l ls ih =>
    obtain ⟨u, hu, he⟩ := Option.bind_eq_some_iff.mp he
    have hls : ∀ k ∈ ls, ∀ u, ok u k := fun k hk => hok k (List.mem_cons_of_mem l hk)
    exact ih (hr.next (hok l List.mem_cons_self s) hu) hls he

/-- A condition that follows from the old one in every state the old one lets a run reach. -/
theorem Reach.strengthen (h : ∀ s l, Reach step init ok s → ok s l → ok' s l) {s : σ}
    (hr : Reach step init ok s) : Reach step init ok' s := by
  induction hr with
  | start hi => exact .start hi
  | next hr hok hs ih => exact ih.next (h _ _ hr hok) hs

/-- Executing labels that pass a computable test for the side condition. -/
theorem Reach.execWhere {test : σ → ℓ → Bool} (htest : ∀ s l, test s l = true → ok s l) {s s' : σ}
    {ls : List ℓ} (hr : Reach step init ok s)
    (he : Transition.exec (fun s l => if test s l then step s l else none) s ls = some s') :
    Reach step init ok s' := by
  induction ls generalizing s with
  | nil => cases he; exact hr
  | cons l ls ih =>
    obtain ⟨u, hu, he⟩ := Option.bind_eq_some_iff.mp he
    obtain ⟨ht, hu⟩ := Option.ite_none_right_eq_some.mp hu
    exact ih (hr.next (htest s l ht) hu) he

/-- A component whose state is a projection of the whole follows its own steps:
every step of the whole either leaves the component alone or steps it. -/
theorem Reach.project {τ κ : Type*} {cstep : τ → κ → Option τ} {cinit : τ → Prop}
    {cok : τ → κ → Prop} (view : σ → τ) (hinit : ∀ s, init s → cinit (view s))
    (hstep : ∀ s l s', Reach step init ok s → ok s l → step s l = some s' →
      view s' = view s ∨ ∃ k, cok (view s) k ∧ cstep (view s) k = some (view s'))
    {s : σ} (hr : Reach step init ok s) : Reach cstep cinit cok (view s) := by
  induction hr with
  | start hi => exact .start (hinit _ hi)
  | next hr ho hs ih =>
    rcases hstep _ _ _ hr ho hs with he | ⟨k, hk, hc⟩
    · rw [he]; exact ih
    · exact .next ih hk hc

/-- A component whose state is a projection of the whole executes the labels that are its own. -/
theorem exec_project {τ κ : Type*} {cstep : τ → κ → Option τ} (view : σ → τ) (label : ℓ → Option κ)
    (hstay : ∀ s l s', step s l = some s' → label l = none → view s' = view s)
    (hstep : ∀ s l s' k, step s l = some s' → label l = some k →
      cstep (view s) k = some (view s'))
    {s s' : σ} {ls : List ℓ} (he : Transition.exec step s ls = some s') :
    Transition.exec cstep (view s) (ls.filterMap label) = some (view s') := by
  induction ls generalizing s with
  | nil => cases he; rfl
  | cons l ls ih =>
    obtain ⟨u, hu, hls⟩ := Option.bind_eq_some_iff.mp he
    cases hlabel : label l with
    | none =>
      rw [List.filterMap_cons_none hlabel, ← hstay s l u hu hlabel]
      exact ih hls
    | some k =>
      rw [List.filterMap_cons_some hlabel, Transition.exec, hstep s l u k hu hlabel,
        Option.bind_some]
      exact ih hls

end Reach

/-! Traces are lists of events, newest first. -/

variable {α : Type*}

/-- Every event satisfying `Q` has an earlier event satisfying `P`. -/
def Precedes (P Q : α → Prop) : List α → Prop
  | [] => True
  | e :: es => (Q e → ∃ d ∈ es, P d) ∧ Precedes P Q es

variable {P Q : α → Prop}

@[simp] theorem precedes_nil : Precedes P Q [] := trivial

@[simp] theorem precedes_cons {e : α} {es : List α} :
    Precedes P Q (e :: es) ↔ (Q e → ∃ d ∈ es, P d) ∧ Precedes P Q es := Iff.rfl

/-- Events that are not `Q` extend a trace freely. -/
theorem Precedes.append {es fs : List α} (hf : ∀ e ∈ fs, ¬ Q e) (h : Precedes P Q es) :
    Precedes P Q (fs ++ es) := by
  induction fs with
  | nil => exact h
  | cons f fs ih =>
    exact ⟨fun hq => absurd hq (hf f (by simp)), ih fun e he => hf e (by simp [he])⟩

theorem precedes_of_forall_not {es : List α} (h : ∀ e ∈ es, ¬ Q e) : Precedes P Q es := by
  have h' : Precedes P Q (es ++ []) := .append h trivial
  simpa using h'

/-- Once a `P` event is in the trace, any events may follow. -/
theorem Precedes.append_of_mem {es fs : List α} (hp : ∃ d ∈ es, P d) (h : Precedes P Q es) :
    Precedes P Q (fs ++ es) := by
  induction fs with
  | nil => exact h
  | cons f fs ih =>
    obtain ⟨d, hd, hP⟩ := hp
    exact ⟨fun _ => ⟨d, List.mem_append_right _ hd, hP⟩, ih⟩

/-- The splitting form: whatever comes before a `Q` event contains a `P` event. -/
theorem precedes_iff {es : List α} :
    Precedes P Q es ↔ ∀ us e vs, es = us ++ e :: vs → Q e → ∃ d ∈ vs, P d := by
  induction es with
  | nil => simp
  | cons f es ih =>
    rw [precedes_cons, ih]
    constructor
    · rintro ⟨hf, hes⟩ us e vs heq hq
      cases us with
      | nil => cases heq; exact hf hq
      | cons u us => cases heq; exact hes us e vs rfl hq
    · intro h
      exact ⟨fun hq => h [] f es rfl hq, fun us e vs heq hq =>
        h (f :: us) e vs (by rw [heq, List.cons_append]) hq⟩

end Transition
