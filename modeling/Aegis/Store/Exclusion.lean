import Aegis.Store.Lock

/-! When the single-writer lock excludes: the token ledger of every run, and the exclusion that
holds as long as no lock file is created beside a release of an older one. -/
namespace Aegis.Store

/-- The lease an acquiring call has drawn a token for. -/
def LockCall.acquiring : LockCall → Option ProfileLease
  | .acquireCreate p token => some ⟨p, token⟩
  | .acquireWrite l _ => some l
  | _ => none

/-- The lease a releasing call was given. -/
def LockCall.releasing : LockCall → Option ProfileLease
  | .releaseRead l | .releaseCompare l _ | .releaseRemove l => some l
  | _ => none

/-- The lease of a release that has read its own token: nothing stops its removal but an
error. -/
def LockCall.removing : LockCall → Option ProfileLease
  | .releaseCompare l held => if held = l.token.text then some l else none
  | .releaseRemove l => some l
  | _ => none

namespace LockSystem

/-- Tokens are drawn once, and leases are issued once. -/
structure Ledger (s : LockSystem) : Prop where
  acquiring : ∀ t c l, s.calls t = some c → c.acquiring = some l →
    l.token ∈ s.drawn ∧ ∀ k ∈ s.issued, k.token ≠ l.token
  acquiring_unique : ∀ t u c d k l, s.calls t = some c → s.calls u = some d →
    c.acquiring = some k → d.acquiring = some l → k.token = l.token → t = u
  releasing : ∀ t c l, s.calls t = some c → c.releasing = some l → l ∈ s.issued ∧ l ∉ s.unreleased
  issued : ∀ l ∈ s.issued, l.token ∈ s.drawn
  unreleased : ∀ l ∈ s.unreleased, l ∈ s.issued
  nodup : s.unreleased.Nodup

/-- The lock file belongs to the acquisition writing it, to the unreleased lease, or to the
release about to remove it. -/
structure Exclusive (s : LockSystem) : Prop where
  writing : ∀ t l i, s.calls t = some (.acquireWrite l i) → s.files l.profile = some ⟨i, []⟩
  writing_unique : ∀ t u k l i j, s.calls t = some (.acquireWrite k i) →
    s.calls u = some (.acquireWrite l j) → k.profile = l.profile → t = u
  held : ∀ l ∈ s.unreleased, ∃ i, s.files l.profile = some ⟨i, l.token.text⟩
  removing : ∀ t c l, s.calls t = some c → c.removing = some l →
    s.files l.profile = none ∨ ∃ i, s.files l.profile = some ⟨i, l.token.text⟩

/-- No acquisition creates a lock file while a release of an older one has yet to remove it. -/
def CreatesAlone (s : LockSystem) (op : LockOp) : Prop :=
  ∀ t p token, op = .create t none → s.calls t = some (.acquireCreate p token) →
    s.files p = none → ∀ u c l, s.calls u = some c → c.removing = some l → l.profile ≠ p

variable {s s' : LockSystem} {t : TaskId}

theorem Ledger.setCall (h : s.Ledger) {c : LockCall} (ha : c.acquiring = none)
    (hr : ∀ l, c.releasing = some l → l ∈ s.issued ∧ l ∉ s.unreleased) :
    (s.setCall t c).Ledger where
  acquiring u d l := by grind [h.acquiring u d l]
  acquiring_unique u v d e k l := by grind [h.acquiring_unique u v d e k l]
  releasing u d l := by grind [h.releasing u d l]
  issued := h.issued
  unreleased := h.unreleased
  nodup := h.nodup

theorem Ledger.setFile (h : s.Ledger) (p : ProfileId) (f : Option LockFile) :
    (s.setFile p f).Ledger :=
  ⟨h.acquiring, h.acquiring_unique, h.releasing, h.issued, h.unreleased, h.nodup⟩

theorem Exclusive.setCall (h : s.Exclusive) {c : LockCall} (hw : ∀ l i, c ≠ .acquireWrite l i)
    (hr : ∀ l, c.removing = some l →
      s.files l.profile = none ∨ ∃ i, s.files l.profile = some ⟨i, l.token.text⟩) :
    (s.setCall t c).Exclusive where
  writing u l i := by grind [h.writing u l i]
  writing_unique u v k l i j := by grind [h.writing_unique u v k l i j]
  held := h.held
  removing u d l := by grind [h.removing u d l]

/-! ### The ledger is kept by every operation -/

theorem Ledger.issue (h : s.Ledger) {l : ProfileLease} (hdrawn : l.token ∈ s.drawn)
    (hnew : ∀ k ∈ s.issued, k.token ≠ l.token)
    (hnone : ∀ u c k, s.calls u = some c → c.acquiring = some k → k.token ≠ l.token) :
    (s.issue l).Ledger where
  acquiring u c k hu hk := by
    obtain ⟨hd, hi⟩ := h.acquiring u c k hu hk
    have := hnone u c k hu hk
    refine ⟨hd, fun m hm => ?_⟩
    rcases List.mem_cons.mp hm with rfl | hm
    · exact this.symm
    · exact hi m hm
  acquiring_unique := h.acquiring_unique
  releasing u c k hu hk := by
    obtain ⟨hi, hr⟩ := h.releasing u c k hu hk
    have hne : k ≠ l := fun he => hnew k hi (he ▸ rfl)
    exact ⟨List.mem_cons_of_mem _ hi, by simp [LockSystem.issue, hne, hr]⟩
  issued k hk := by
    rcases List.mem_cons.mp hk with rfl | hk
    · exact hdrawn
    · exact h.issued k hk
  unreleased k hk := by
    rcases List.mem_cons.mp hk with rfl | hk
    · exact List.mem_cons_self
    · exact List.mem_cons_of_mem _ (h.unreleased k hk)
  nodup := List.nodup_cons.mpr
    ⟨fun hl => hnew l (h.unreleased l hl) rfl, h.nodup⟩

theorem Ledger.giveUp (h : s.Ledger) (l : ProfileLease) : (s.giveUp l).Ledger where
  acquiring := h.acquiring
  acquiring_unique := h.acquiring_unique
  releasing u c k hu hk := by
    obtain ⟨hi, hr⟩ := h.releasing u c k hu hk
    exact ⟨hi, fun hm => hr (List.mem_filter.mp hm).1⟩
  issued := h.issued
  unreleased k hk := h.unreleased k (List.mem_filter.mp hk).1
  nodup := h.nodup.filter _

theorem Ledger.acquireStat {p : ProfileId} {present : Bool} {token : LockToken} (h : s.Ledger)
    (hs : s.acquireStat t p present token = some s') : s'.Ledger := by
  unfold LockSystem.acquireStat at hs
  split_ifs at hs with hpresent hfresh
  · cases hs
    exact h.setCall rfl (by simp [LockCall.releasing])
  · cases hs
    -- a token drawn now is the token of no lease and of no other acquisition
    have hnew : ∀ l ∈ s.issued, l.token ≠ token := fun l hl he => hfresh (he ▸ h.issued l hl)
    constructor
    case acquiring => grind [h.acquiring, LockCall.acquiring]
    case acquiring_unique =>
      intro u v c d k l hu hv hk hl he
      have hc := fun hu' => (h.acquiring u c k hu' hk).1
      have hd := fun hv' => (h.acquiring v d l hv' hl).1
      grind [h.acquiring_unique u v c d k l, LockCall.acquiring]
    case releasing => grind [h.releasing, LockCall.releasing]
    case issued => grind [h.issued]
    case unreleased => exact h.unreleased
    case nodup => exact h.nodup

theorem Ledger.acquireCreate {p : ProfileId} {token : LockToken} {io : Option String} (h : s.Ledger)
    (hc : s.calls t = some (.acquireCreate p token)) : (s.acquireCreate t p token io).Ledger := by
  unfold LockSystem.acquireCreate
  split
  · exact h.setCall rfl (by simp [LockCall.releasing])
  · exact h.setCall rfl (by simp [LockCall.releasing])
  · have hmine := h.acquiring t _ ⟨p, token⟩ hc rfl
    have huniq := h.acquiring_unique t
    constructor
    case acquiring => grind [h.acquiring, LockCall.acquiring]
    case acquiring_unique => grind [h.acquiring_unique, LockCall.acquiring]
    case releasing => grind [h.releasing, LockCall.releasing]
    case issued => exact h.issued
    case unreleased => exact h.unreleased
    case nodup => exact h.nodup

theorem Ledger.acquireWrite {l : ProfileLease} {i : ℕ} {cut : Option (ℕ × String)} (h : s.Ledger)
    (hc : s.calls t = some (.acquireWrite l i)) : (s.acquireWrite t l i cut).Ledger := by
  obtain ⟨hdrawn, hnew⟩ := h.acquiring t _ l hc rfl
  unfold LockSystem.acquireWrite
  split
  next n e =>
    obtain ⟨f, hf⟩ := s.exists_writeFile l.profile i (l.token.text.take n)
    rw [hf]
    exact (h.setFile _ _).setCall rfl (by simp [LockCall.releasing])
  next =>
    obtain ⟨f, hf⟩ := s.exists_writeFile l.profile i l.token.text
    rw [hf]
    refine ((h.setFile _ _).setCall rfl (by simp [LockCall.releasing])).issue hdrawn hnew ?_
    intro u c k hu hk he
    -- another acquisition with this token would be this one
    have := h.acquiring_unique t u
    grind [LockCall.acquiring]

theorem Ledger.step {op : LockOp} (h : s.Ledger) (hs : s.step op = some s') : s'.Ledger := by
  have hnone : ∀ l, (none : Option ProfileLease) = some l → l ∈ s.issued ∧ l ∉ s.unreleased := by
    simp
  cases op with
  | acquire u p =>
    simp only [LockSystem.step] at hs
    split_ifs at hs
    cases hs
    exact h.setCall rfl hnone
  | release u l =>
    simp only [LockSystem.step] at hs
    split_ifs at hs with hl
    cases hs
    refine (h.giveUp l).setCall rfl ?_
    rintro k ⟨⟩
    exact ⟨hl.2, by simp [LockSystem.giveUp]⟩
  | stat u present token =>
    simp only [LockSystem.step] at hs
    split at hs
    · exact h.acquireStat hs
    · cases hs
  | create u io =>
    simp only [LockSystem.step] at hs
    split at hs <;> cases hs
    next hc => exact h.acquireCreate hc
  | write u cut =>
    simp only [LockSystem.step] at hs
    split at hs <;> cases hs
    next hc => exact h.acquireWrite hc
  | read u io =>
    simp only [LockSystem.step] at hs
    split at hs <;> cases hs
    next l hc =>
    have hl := h.releasing u _ l hc rfl
    unfold LockSystem.releaseRead
    split
    · exact h.setCall rfl hnone
    · exact h.setCall rfl hnone
    · exact h.setCall rfl (by rintro k ⟨⟩; exact hl)
  | compare u =>
    simp only [LockSystem.step] at hs
    split at hs <;> cases hs
    next l held hc =>
    have hl := h.releasing u _ l hc rfl
    unfold LockSystem.releaseCompare
    split_ifs
    · exact h.setCall rfl hnone
    · exact h.setCall rfl (by rintro k ⟨⟩; exact hl)
  | remove u io =>
    simp only [LockSystem.step] at hs
    split at hs <;> cases hs
    unfold LockSystem.releaseRemove
    split
    · exact h.setCall rfl hnone
    · exact h.setCall rfl hnone
    · exact (h.setFile _ _).setCall rfl hnone

/-! ### Exclusion is kept by every operation that does not create a lock file beside a
release of an older one -/

theorem Exclusive.acquireStat {p : ProfileId} {present : Bool} {token : LockToken}
    (h : s.Exclusive) (hs : s.acquireStat t p present token = some s') : s'.Exclusive := by
  unfold LockSystem.acquireStat at hs
  split_ifs at hs
  · cases hs
    exact h.setCall (by simp) (by simp [LockCall.removing])
  · cases hs
    have hdraw : (s.draw token).Exclusive := ⟨h.writing, h.writing_unique, h.held, h.removing⟩
    exact hdraw.setCall (by simp) (by simp [LockCall.removing])

theorem Exclusive.acquireCreate {p : ProfileId} {token : LockToken} {io : Option String}
    (h : s.Exclusive) (hc : s.calls t = some (.acquireCreate p token))
    (halone : s.CreatesAlone (.create t io)) : (s.acquireCreate t p token io).Exclusive := by
  unfold LockSystem.acquireCreate
  split
  · exact h.setCall (by simp) (by simp [LockCall.removing])
  · exact h.setCall (by simp) (by simp [LockCall.removing])
  next hfile =>
    have hremoving := halone t p token rfl hc hfile
    have hwriting : ∀ u l i, s.calls u = some (.acquireWrite l i) → l.profile ≠ p := by
      intro u l i hu he
      have := h.writing u l i hu
      rw [he, hfile] at this
      cases this
    constructor
    case writing => grind [h.writing]
    case writing_unique => grind [h.writing_unique]
    case held =>
      intro l hl
      obtain ⟨i, hi⟩ := h.held l hl
      have hne : l.profile ≠ p := fun he => by rw [he, hfile] at hi; cases hi
      exact ⟨i, by simpa [hne] using hi⟩
    case removing => grind [h.removing, LockCall.removing]

theorem Exclusive.acquireWrite {l : ProfileLease} {i : ℕ} {cut : Option (ℕ × String)}
    (h : s.Exclusive) (hc : s.calls t = some (.acquireWrite l i)) :
    (s.acquireWrite t l i cut).Exclusive := by
  have hfile := h.writing t l i hc
  -- the file is still empty: no lease and no release has its bytes
  have hempty : ∀ k : ProfileLease, k.profile = l.profile →
      ¬ ∃ j, s.files k.profile = some ⟨j, k.token.text⟩ := by
    rintro k he ⟨j, hj⟩
    have hlen := k.token.length_text
    rw [he, hfile] at hj
    simp [← (LockFile.mk.injEq .. ▸ Option.some.inj hj).2] at hlen
  have hheld : ∀ k ∈ s.unreleased, k.profile ≠ l.profile :=
    fun k hk he => hempty k he (h.held k hk)
  have hremoving : ∀ u c k, s.calls u = some c → c.removing = some k → k.profile ≠ l.profile := by
    intro u c k hu hk he
    rcases h.removing u c k hu hk with hn | hb
    · rw [he, hfile] at hn; cases hn
    · exact hempty k he hb
  have hset (bytes : List Char) (c : LockCall) (hw : ∀ k j, c ≠ .acquireWrite k j)
      (hr : c.removing = none) :
      ((s.setFile l.profile (some ⟨i, bytes⟩)).setCall t c).Exclusive := by
    constructor
    case writing => grind [h.writing, h.writing_unique]
    case writing_unique => grind [h.writing_unique]
    case held =>
      intro k hk
      obtain ⟨j, hj⟩ := h.held k hk
      exact ⟨j, by simpa [hheld k hk] using hj⟩
    case removing => grind [h.removing]
  unfold LockSystem.acquireWrite
  split
  next n e =>
    rw [writeFile_of_names hfile]
    exact hset _ _ (by simp) rfl
  next =>
    rw [writeFile_of_names hfile]
    have hnew := hset l.token.text (.acquired (.ok l)) (by simp) rfl
    refine ⟨hnew.writing, hnew.writing_unique, fun k hk => ?_, hnew.removing⟩
    rcases List.mem_cons.mp hk with rfl | hk
    · exact ⟨i, by simp [LockSystem.issue]⟩
    · exact hnew.held k hk

theorem Exclusive.releaseRead {l : ProfileLease} {io : Option String} (h : s.Exclusive) :
    (s.releaseRead t l io).Exclusive := by
  unfold LockSystem.releaseRead
  split
  · exact h.setCall (by simp) (by simp [LockCall.removing])
  · exact h.setCall (by simp) (by simp [LockCall.removing])
  next f hf =>
    refine h.setCall (by simp) fun k hk => ?_
    simp only [LockCall.removing, Option.ite_none_right_eq_some, Option.some.injEq] at hk
    obtain ⟨hbytes, rfl⟩ := hk
    exact .inr ⟨f.inode, by rw [hf, ← hbytes]⟩

theorem Exclusive.releaseCompare {l : ProfileLease} {held : List Char} (h : s.Exclusive)
    (hc : s.calls t = some (.releaseCompare l held)) : (s.releaseCompare t l held).Exclusive := by
  have hmine := h.removing t _ l hc
  unfold LockSystem.releaseCompare
  split_ifs with hheld
  · exact h.setCall (by simp) (by simp [LockCall.removing])
  · refine h.setCall (by simp) ?_
    rintro k ⟨⟩
    exact hmine (by simpa [LockCall.removing] using hheld)

/-- The file a release removes carries its own token, so no other lease loses its file. -/
theorem Exclusive.releaseRemove {l : ProfileLease} {io : Option String} (h : s.Exclusive)
    (hl : s.Ledger) (hc : s.calls t = some (.releaseRemove l)) :
    (s.releaseRemove t l io).Exclusive := by
  have hmine := h.removing t _ l hc rfl
  obtain ⟨-, hgone⟩ := hl.releasing t _ l hc rfl
  unfold LockSystem.releaseRemove
  split
  · exact h.setCall (by simp) (by simp [LockCall.removing])
  · exact h.setCall (by simp) (by simp [LockCall.removing])
  next f hf =>
    have hbytes : f.bytes = l.token.text := by
      rcases hmine with hn | ⟨i, hi⟩
      · rw [hf] at hn; cases hn
      · rw [hf] at hi; cases hi; rfl
    refine Exclusive.setCall ?_ (by simp) (by simp [LockCall.removing])
    constructor
    case writing =>
      intro u k i hu
      have hk := h.writing u k i hu
      have hne : k.profile ≠ l.profile := fun he => by
        rw [he, hf] at hk
        have hlen := l.token.length_text
        simp [← hbytes, Option.some.inj hk] at hlen
      simpa [hne] using hk
    case writing_unique => exact h.writing_unique
    case held =>
      intro k hk
      obtain ⟨i, hi⟩ := h.held k hk
      have hne : k.profile ≠ l.profile := fun he => by
        rw [he, hf] at hi
        have htext : l.token.text = k.token.text := by rw [← hbytes, Option.some.inj hi]
        exact hgone (ProfileLease.eq_of_text he htext.symm ▸ hk)
      exact ⟨i, by simpa [hne] using hi⟩
    case removing => grind [h.removing]

theorem Exclusive.step {op : LockOp} (h : s.Exclusive) (hl : s.Ledger) (halone : s.CreatesAlone op)
    (hs : s.step op = some s') : s'.Exclusive := by
  cases op with
  | acquire u p =>
    simp only [LockSystem.step] at hs
    split_ifs at hs
    cases hs
    exact h.setCall (by simp) (by simp [LockCall.removing])
  | release u l =>
    simp only [LockSystem.step] at hs
    split_ifs at hs
    cases hs
    have hup : (s.giveUp l).Exclusive :=
      ⟨h.writing, h.writing_unique, fun k hk => h.held k (List.mem_filter.mp hk).1, h.removing⟩
    exact hup.setCall (by simp) (by simp [LockCall.removing])
  | stat u present token =>
    simp only [LockSystem.step] at hs
    split at hs
    · exact h.acquireStat hs
    · cases hs
  | create u io =>
    simp only [LockSystem.step] at hs
    split at hs <;> cases hs
    next hc => exact h.acquireCreate hc halone
  | write u cut =>
    simp only [LockSystem.step] at hs
    split at hs <;> cases hs
    next hc => exact h.acquireWrite hc
  | read u io =>
    simp only [LockSystem.step] at hs
    split at hs <;> cases hs
    exact h.releaseRead
  | compare u =>
    simp only [LockSystem.step] at hs
    split at hs <;> cases hs
    next hc => exact h.releaseCompare hc
  | remove u io =>
    simp only [LockSystem.step] at hs
    split at hs <;> cases hs
    next hc => exact h.releaseRemove hl hc

theorem ledger_initial : initial.Ledger := by
  constructor <;> simp [initial]

theorem exclusive_initial : initial.Exclusive := by
  constructor <;> simp [initial]

/-- Tokens and leases stay unique in every run. -/
theorem ledger_of_reach (hr : Transition.Reach step (· = initial) Transition.anyStep s) :
    s.Ledger :=
  hr.invariant (by rintro s rfl; exact ledger_initial) fun _ _ _ _ h _ hs => h.step hs

theorem exclusive_of_reach (hr : Transition.Reach step (· = initial) CreatesAlone s) :
    s.Exclusive :=
  hr.invariant (by rintro s rfl; exact exclusive_initial) fun _ _ _ hr h ho hs =>
    h.step (ledger_of_reach hr.any) ho hs

theorem Exclusive.eq_of_held (h : s.Exclusive) {k l : ProfileLease} (hk : k ∈ s.unreleased)
    (hl : l ∈ s.unreleased) (hp : k.profile = l.profile) : k = l := by
  obtain ⟨i, hi⟩ := h.held k hk
  obtain ⟨j, hj⟩ := h.held l hl
  rw [hp, hj] at hi
  exact ProfileLease.eq_of_text hp (by grind)

theorem Exclusive.length_le_one (h : s.Exclusive) (hl : s.Ledger) (p : ProfileId) :
    (s.unreleased.filter (·.profile = p)).length ≤ 1 := by
  have hnodup := hl.nodup.filter (fun l : ProfileLease => decide (l.profile = p))
  match hf : s.unreleased.filter (·.profile = p) with
  | [] => rw [hf]; simp
  | [_] => rw [hf]; simp
  | k :: l :: ls =>
    have hmem : ∀ m ∈ [k, l], m ∈ s.unreleased ∧ m.profile = p := fun m hm => by
      have hm' : m ∈ s.unreleased.filter (·.profile = p) := by
        rw [hf]
        simp only [List.mem_cons, List.not_mem_nil, or_false] at hm
        rcases hm with rfl | rfl <;> simp
      simpa using hm'
    obtain ⟨hk, hkp⟩ := hmem k (by simp)
    obtain ⟨hl', hlp⟩ := hmem l (by simp)
    have he := h.eq_of_held hk hl' (hkp.trans hlp.symm)
    rw [hf, he] at hnodup
    simp at hnodup

/-- One lease of a profile is unreleased at most, and the file that a release removes next, if
there is one, carries the token of its own lease and is not the file of an unreleased one. -/
def MutuallyExclusive (s : LockSystem) : Prop :=
  (∀ p, (s.unreleased.filter (·.profile = p)).length ≤ 1) ∧
  ∀ t l s', s.calls t = some (.releaseRemove l) → s.step (.remove t none) = some s' →
    (∀ f, s.files l.profile = some f → f.bytes = l.token.text) ∧
    ∀ k ∈ s.unreleased, s'.files k.profile = s.files k.profile

theorem mutuallyExclusive_of_reach
    (hr : Transition.Reach step (· = initial) CreatesAlone s) : s.MutuallyExclusive := by
  have hx := exclusive_of_reach hr
  have hl := ledger_of_reach hr.any
  refine ⟨hx.length_le_one hl, fun t l s' hc hs => ⟨fun f hf => ?_, fun k hk => ?_⟩⟩
  · rcases hx.removing t _ l hc rfl with hn | ⟨i, hi⟩
    · rw [hf] at hn; cases hn
    · rw [hf] at hi; cases hi; rfl
  · have hx' : s'.Exclusive := hx.step hl (by rintro u p token ⟨⟩) hs
    simp only [step, hc, Option.some.injEq] at hs
    subst hs
    unfold releaseRemove at hx' ⊢
    split
    · rfl
    · rfl
    next f hf =>
      simp only [hf] at hx'
      obtain ⟨i, hi⟩ := hx'.held k hk
      have hne : k.profile ≠ l.profile := fun he => by simp [he] at hi
      simp [hne]

def repeated (c : Char) : LockToken := ⟨List.replicate 32 c, by simp⟩

/-- A single acquisition meets the condition and hands out its lease. -/
theorem mutuallyExclusive_acquired : ∃ s : LockSystem, s.unreleased ≠ [] ∧ s.MutuallyExclusive := by
  have h₀ : Transition.Reach step (· = initial) CreatesAlone initial := .start rfl
  have h₁ : Transition.Reach step (· = initial) CreatesAlone _ :=
    h₀.next (show CreatesAlone _ (.acquire 0 ⟨0⟩) by rintro _ _ _ ⟨⟩) rfl
  have h₂ : Transition.Reach step (· = initial) CreatesAlone _ :=
    h₁.next (show CreatesAlone _ (.stat 0 true (repeated 'a')) by rintro _ _ _ ⟨⟩) rfl
  have h₃ : Transition.Reach step (· = initial) CreatesAlone _ :=
    h₂.next (show CreatesAlone _ (.create 0 none) by
      rintro _ p token ⟨⟩ - - u c l hu hc
      by_cases h : u = 0 <;> simp_all [initial]
      rw [← hu] at hc
      cases hc) rfl
  have h₄ : Transition.Reach step (· = initial) CreatesAlone _ :=
    h₃.next (show CreatesAlone _ (.write 0 none) by rintro _ _ _ ⟨⟩) rfl
  exact ⟨_, List.cons_ne_nil _ _, mutuallyExclusive_of_reach h₄⟩

/-- Task `t` acquires profile 0 undisturbed, with the token of `c`s. -/
def acquireRun (t : TaskId) (c : Char) : List LockOp :=
  [.acquire t ⟨0⟩, .stat t true (repeated c), .create t none, .write t none]

/-- Two releases of one lease read the file before the first removes it; the second removes the
file of the next lease. -/
def staleRelease : List LockOp :=
  acquireRun 0 'a' ++
    [.release 1 ⟨⟨0⟩, repeated 'a'⟩, .release 2 ⟨⟨0⟩, repeated 'a'⟩, .read 1 none, .read 2 none,
      .compare 1, .compare 2, .remove 1 none] ++
    acquireRun 3 'b' ++ [.remove 2 none] ++ acquireRun 4 'c'

theorem staleRelease_unreleased : (Transition.exec step initial staleRelease).map (·.unreleased) =
    some [⟨⟨0⟩, repeated 'c'⟩, ⟨⟨0⟩, repeated 'b'⟩] := rfl

/-- Two leases of one profile are unreleased at once after the stale removal. -/
theorem staleRelease_not_exclusive : ∃ s,
    Transition.Reach step (· = initial) Transition.anyStep s ∧ ¬ s.MutuallyExclusive := by
  obtain ⟨s, hs, hu⟩ := Option.map_eq_some_iff.mp staleRelease_unreleased
  have hinit : Transition.Reach step (· = initial) Transition.anyStep initial := .start rfl
  refine ⟨s, hinit.exec hs, fun h => ?_⟩
  have := h.1 ⟨0⟩
  rw [hu] at this
  exact absurd this (by decide)

end LockSystem

end Aegis.Store
