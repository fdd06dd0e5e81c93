import Aegis.Lib.FilePlan
import Aegis.Lib.FileWalk

/-! What operations at or below a path leave, wherever they are cut short: all that is outside it as
it was, and of a file that is zeroed its bytes, or bytes that begin with a zero, or nothing. -/
namespace FileTree
open Text

variable {as bs before : List Act} {a : Act} {t t' : Tree} {p q top : Path} {bytes old : Bytes}
  {offset : ℕ} {faults : List (Option Fault)}

/-! ### Paths that go through the same nodes -/

namespace Tree

variable {dir : Path} {name : FileName} {names : List FileName}

theorem Plain.no_parent (h : t.Plain dir names) : ".." ∉ names := by
  induction names generalizing dir with
  | nil => exact List.not_mem_nil
  | cons name names ih =>
    obtain ⟨hname, -, h⟩ := h
    intro hmem
    rcases List.mem_cons.mp hmem with he | hmem
    · exact hname he.symm
    · exact ih h hmem

theorem prefix_next {dir q : Path} (h : q <+: dir ++ [name] ++ names) :
    q <+: dir ++ name :: names := by
  rwa [List.append_assoc, List.singleton_append] at h

theorem hop_congr (hparent : ".." ∉ names)
    (hnodes : ∀ q, q <+: dir ++ names → t'.node q = t.node q) :
    t'.hop dir names = t.hop dir names := by
  induction names generalizing dir with
  | nil => rfl
  | cons name names ih =>
    have hname : name ≠ ".." := fun he => hparent (he ▸ List.mem_cons_self)
    have hnext := hnodes (dir ++ [name]) (prefix_next (List.prefix_append _ _))
    rw [hop, hop, if_neg hname, if_neg hname, hnext]
    cases t.node (dir ++ [name]) with
    | none => rfl
    | some n =>
      cases n with
      | dir =>
        exact ih (fun hmem => hparent (List.mem_cons_of_mem name hmem)) fun q hq =>
          hnodes q (prefix_next hq)
      | file bytes => rfl
      | link target => rfl
      | special => rfl

theorem hop_ne_link (hparent : ".." ∉ names)
    (hlink : ∀ q target, q <+: dir ++ names → t.node q ≠ some (.link target)) :
    ∀ d target rest, t.hop dir names ≠ .link d target rest := by
  induction names generalizing dir with
  | nil => rintro _ _ _ ⟨⟩
  | cons name names ih =>
    have hname : name ≠ ".." := fun he => hparent (he ▸ List.mem_cons_self)
    have hnext := fun target => hlink (dir ++ [name]) target (prefix_next (List.prefix_append _ _))
    intro d target rest
    rw [hop, if_neg hname]
    cases hn : t.node (dir ++ [name]) with
    | none =>
      simp only
      split <;> rintro ⟨⟩
    | some n =>
      cases n with
      | dir =>
        exact ih (fun hmem => hparent (List.mem_cons_of_mem name hmem))
          (fun q target hq => hlink q target (prefix_next hq)) d target rest
      | file bytes =>
        simp only
        split <;> rintro ⟨⟩
      | link target' => exact absurd hn (hnext target')
      | special =>
        simp only
        split <;> rintro ⟨⟩

/-- A path without a link on it leads to the same place where its nodes are the same. -/
theorem resolve_congr (hparent : ".." ∉ p)
    (hlink : ∀ q target, q <+: p → t.node q ≠ some (.link target))
    (hnodes : ∀ q, q <+: p → t'.node q = t.node q) : t'.resolve p = t.resolve p := by
  have hsame : t'.hop [] p = t.hop [] p := hop_congr hparent hnodes
  have hno : ∀ d target rest, t.hop [] p ≠ .link d target rest := hop_ne_link hparent hlink
  unfold resolve follow
  rw [hsame]
  cases hhop : t.hop [] p with
  | arrived q => rfl
  | failed e => rfl
  | link d target rest => exact absurd hhop (hno d target rest)

theorem hop_missing (h : t.Plain dir names) (hs : ¬ t.Straight dir names)
    {rest : List FileName} (hrest : rest ≠ []) :
    t.hop dir (names ++ rest) = .failed .notFound := by
  induction names generalizing dir with
  | nil => exact absurd trivial hs
  | cons name names ih =>
    obtain ⟨hname, hnode, h⟩ := h
    rw [List.cons_append, hop, if_neg hname]
    rcases hnode with hdir | hnone
    · simp only [hdir]
      exact ih h fun hnames => hs ⟨hname, hdir, hnames⟩
    · simp only [hnone]
      exact if_neg (by simp [hrest])

theorem resolve_missing (h : t.Plain [] dir) (hs : ¬ t.Straight [] dir) :
    t.resolve (dir ++ [name]) = .error .notFound := by
  unfold resolve follow
  rw [hop_missing h hs (List.cons_ne_nil name [])]

/-- What a path that ends at no link tells of the node there. -/
theorem bind_entry {α : Type} (h : t.Plain [] dir) (hname : name ≠ "..")
    (hlink : ∀ target, t.node (dir ++ [name]) ≠ some (.link target))
    (f : Path → Except IoError α) :
    (t.resolve (dir ++ [name])).bind f = .error .notFound ∧ ¬ t.Straight [] dir ∨
      (t.resolve (dir ++ [name])).bind f = f (dir ++ [name]) ∧ t.Straight [] dir := by
  by_cases hs : t.Straight [] dir
  · exact .inr ⟨by rw [resolve_entry_straight hs hname hlink]; rfl, hs⟩
  · exact .inl ⟨by rw [resolve_missing h hs]; rfl, hs⟩

/-- What a path tells where there are directories, or nothing yet. -/
theorem bind_plain {α : Type} (h : t.Plain [] p) {f : Path → Except IoError α}
    (hf : t.node p = none → f p = .error .notFound) :
    t.Straight [] p ∧ (t.resolve p).bind f = f p ∨
      ¬ t.Straight [] p ∧ (t.resolve p).bind f = .error .notFound := by
  by_cases hs : t.Straight [] p
  · exact .inl ⟨hs, by rw [resolve_straight hs]; rfl⟩
  · refine .inr ⟨hs, ?_⟩
    rcases straight_or_missing h with hs' | hhop | ⟨hhop, hnone⟩
    · exact absurd hs' hs
    · rw [resolve, follow, hhop]
      rfl
    · rw [resolve, follow, hhop]
      exact hf hnone

/-- A directory can be read, or is not there yet. -/
theorem entriesAt_plain (h : t.Plain [] p) :
    t.Straight [] p ∧ t.entriesAt p = .ok (t.children p) ∨
      ¬ t.Straight [] p ∧ t.entriesAt p = .error .notFound := by
  by_cases hs : t.Straight [] p
  · exact .inl ⟨hs, entriesAt_eq_ok.mpr ⟨p, resolve_straight hs, node_of_straight hs, rfl⟩⟩
  · unfold entriesAt
    refine .inr ⟨hs, ((bind_plain h fun hnone => ?_).resolve_left fun hb => hs hb.1).2⟩
    simp only [hnone]

/-- The bytes at the end of a path that ends at no link. -/
theorem bytesAt_eq_ok (h : t.Plain [] dir) (hname : name ≠ "..")
    (hlink : ∀ target, t.node (dir ++ [name]) ≠ some (.link target)) :
    t.bytesAt (dir ++ [name]) = .ok bytes ↔
      t.Straight [] dir ∧ t.node (dir ++ [name]) = some (.file bytes) := by
  unfold bytesAt
  constructor
  · intro hbytes
    rcases bind_entry h hname hlink _ with ⟨hnone, -⟩ | ⟨hnode, hs⟩
    · rw [hnone] at hbytes
      cases hbytes
    · have hat := hnode.symm.trans hbytes
      refine ⟨hs, ?_⟩
      split at hat <;> cases hat
      assumption
  · rintro ⟨hs, hfile⟩
    simp only [resolve_entry_straight hs hname hlink, Except.bind, hfile]

theorem bytesAt_missing (h : t.Plain [] dir) (hs : ¬ t.Straight [] dir) :
    t.bytesAt (dir ++ [name]) = .error .notFound := by
  rw [bytesAt, resolve_missing h hs]
  rfl

theorem bytesAt_none (h : t.Plain [] dir) (hname : name ≠ "..")
    (hnone : t.node (dir ++ [name]) = none) : t.bytesAt (dir ++ [name]) = .error .notFound := by
  have hlink : ∀ target, t.node (dir ++ [name]) ≠ some (.link target) := by simp [hnone]
  unfold bytesAt
  rcases bind_entry h hname hlink _ with ⟨hgone, -⟩ | ⟨hnode, -⟩
  · exact hgone
  · exact hnode.trans (by simp only [hnone])

theorem node_of_bytesAt (h : t.Straight [] dir) (hname : name ≠ "..")
    (hlink : ∀ target, t.node (dir ++ [name]) ≠ some (.link target))
    (hnone : t.bytesAt (dir ++ [name]) = .error .notFound) : t.node (dir ++ [name]) = none := by
  simp only [bytesAt, resolve_entry_straight h hname hlink, Except.bind] at hnone
  split at hnone <;> cases hnone
  assumption

end Tree

/-! ### A place that is written to or removed -/

theorem Act.node_effect (h : a.place ≠ some q) (t : Tree) : (a.effect t).node q = t.node q := by
  cases a with
  | ask => rfl
  | write p offset bytes =>
    have hne : q ≠ p := fun he => h (congrArg some he.symm)
    rw [effect]
    rcases t.spliceAt_cases p offset bytes with hsame | ⟨old, -, hput⟩
    · rw [hsame]
    · rw [hput, Tree.node_put_of_ne hne]
  | unlink p => exact Tree.node_remove_of_ne fun he => h (congrArg some he.symm)

theorem Act.place_trim {n : ℕ} (h : (a.trim n).place = some p) : a.place = some p := by
  cases a with
  | ask => cases h
  | write q offset bytes => exact h
  | unlink q => cases h

theorem Act.trim_ne_unlink (a : Act) (n : ℕ) : a.trim n ≠ .unlink q := by
  cases a <;> nofun

/-- What is not performed in part is one of the operations. -/
theorem mem_of_mem_performed (h : a ∈ performed as faults) :
    a ∈ as ∨ ∃ b ∈ as, ∃ n, a = b.trim n := by
  rcases performed_cases as faults with hall | ⟨before, b, n, after, rfl, hdone⟩
  · exact .inl (hall ▸ h)
  · rw [hdone, List.mem_append, List.mem_singleton] at h
    rcases h with h | rfl
    · exact .inl (List.mem_append_left _ h)
    · exact .inr ⟨b, List.mem_append_right _ List.mem_cons_self, n, rfl⟩

theorem place_performed (h : a ∈ performed as faults) (hp : a.place = some p) :
    ∃ b ∈ as, b.place = some p := by
  rcases mem_of_mem_performed h with h | ⟨b, hb, n, rfl⟩
  · exact ⟨a, h, hp⟩
  · exact ⟨b, hb, Act.place_trim hp⟩

/-- Nothing comes to an empty place. -/
theorem node_effect_none (h : t.node q = none) (a : Act) : (a.effect t).node q = none := by
  by_cases hplace : a.place = some q
  · have hne : q ≠ [] := by
      rintro rfl
      rw [Tree.node_nil] at h
      cases h
    cases a with
    | ask => exact h
    | write p offset bytes =>
      cases hplace
      rw [Act.effect, Tree.spliceAt, h]
      exact h
    | unlink p =>
      cases hplace
      exact Tree.node_remove_self hne
  · rw [a.node_effect hplace, h]

theorem node_effects_none (h : t.node q = none) (as : List Act) :
    (effects as t).node q = none := by
  induction as generalizing t with
  | nil => exact h
  | cons a as ih => exact ih (node_effect_none h a)

/-- What is removed does not come back. -/
theorem node_effects_gone (hq : q ≠ []) (h : .unlink q ∈ as) : (effects as t).node q = none := by
  induction as generalizing t with
  | nil => cases h
  | cons a as ih =>
    rcases List.mem_cons.mp h with rfl | h
    · exact node_effects_none (Tree.node_remove_self hq) as
    · exact ih h

/-- A directory stays until it is removed. -/
theorem node_effects_dir (h : t.node q = some .dir) (hkeep : .unlink q ∉ as) :
    (effects as t).node q = some .dir := by
  induction as generalizing t with
  | nil => exact h
  | cons a as ih =>
    refine ih ?_ fun hmem => hkeep (List.mem_cons_of_mem a hmem)
    by_cases hplace : a.place = some q
    · cases a with
      | ask => exact h
      | write p offset bytes =>
        cases hplace
        show (t.spliceAt q offset bytes).node q = some .dir
        rw [Tree.spliceAt, h]
        exact h
      | unlink p =>
        cases hplace
        exact absurd List.mem_cons_self hkeep
    · rw [a.node_effect hplace, h]

/-- What is removed later is not deeper. -/
def Deeper (a b : Act) : Prop := ∀ p q, a = .unlink p → b = .unlink q → q.length ≤ p.length

/-- A directory is not removed before what is in it. -/
theorem unlink_performed (has : as.Pairwise Deeper) (hp : .unlink p ∈ as)
    (hlength : q.length < p.length) (hq : .unlink q ∈ performed as faults) :
    .unlink p ∈ performed as faults := by
  rcases performed_cases as faults with hall | ⟨before, a, n, after, rfl, hdone⟩
  · rwa [hall]
  · rw [hdone] at hq ⊢
    rcases List.mem_append.mp hq with hq | hq
    · refine List.mem_append_left _ ((List.mem_append.mp hp).resolve_right fun hafter => ?_)
      have hle := (List.pairwise_append.mp has).2.2 _ hq _ hafter q p rfl rfl
      omega
    · exact absurd (List.mem_singleton.mp hq).symm (a.trim_ne_unlink n)

/-! ### A file that is zeroed -/

/-- Bytes are written at `q`. -/
def Wrote (q : Path) (as : List Act) : Prop :=
  ∃ offset bytes, bytes ≠ [] ∧ .write q offset bytes ∈ as

/-- Zeros are written at `q`, at its start before they are anywhere else. -/
def Zeroing (q : Path) (as : List Act) : Prop :=
  ∀ before offset bytes, before ++ [.write q offset bytes] <+: as →
    (∀ b ∈ bytes, b = 0) ∧ (offset = 0 ∨ Wrote q before)

theorem Wrote.append (h : Wrote q as) (bs : List Act) : Wrote q (as ++ bs) := by
  obtain ⟨offset, bytes, hne, hmem⟩ := h
  exact ⟨offset, bytes, hne, List.mem_append_left _ hmem⟩

theorem Wrote.of_right (as : List Act) (h : Wrote q bs) : Wrote q (as ++ bs) := by
  obtain ⟨offset, bytes, hne, hmem⟩ := h
  exact ⟨offset, bytes, hne, List.mem_append_right _ hmem⟩

theorem Zeroing.above (h : Zeroing q (as ++ bs)) : Zeroing q as :=
  fun before offset bytes hle => h before offset bytes (hle.trans (List.prefix_append _ _))

/-- Operations with no write at `q`. -/
theorem zeroing_of_ne (h : ∀ offset bytes, .write q offset bytes ∉ as) : Zeroing q as := by
  intro before offset bytes hle
  exact absurd (hle.subset (List.mem_append_right _ List.mem_cons_self)) (h offset bytes)

theorem Zeroing.append (has : Zeroing q as) (hbs : Zeroing q bs) : Zeroing q (as ++ bs) := by
  intro before offset bytes hle
  rcases List.prefix_or_prefix_of_prefix hle (List.prefix_append as bs) with hleft | hright
  · exact has before offset bytes hleft
  · rcases List.prefix_concat_iff.mp hright with rfl | ⟨rest, rfl⟩
    · exact has before offset bytes List.prefix_rfl
    · rw [List.append_assoc, List.prefix_append_right_inj] at hle
      exact (hbs rest offset bytes hle).imp_right (.imp_right (.of_right as))

/-- Zeros after zeros, or at the start. -/
theorem Zeroing.write (h : Zeroing q as) (hzero : ∀ b ∈ bytes, b = 0)
    (hstart : offset = 0 ∨ Wrote p as) : Zeroing q (as ++ [.write p offset bytes]) := by
  intro before offset' bytes' hle
  rcases List.prefix_concat_iff.mp hle with heq | hle
  · obtain ⟨rfl, hlast⟩ := List.append_inj' heq rfl
    cases hlast
    exact ⟨hzero, hstart⟩
  · exact h before offset' bytes' hle

theorem Zeroing.trim (h : Zeroing q (as ++ [a])) (n : ℕ) : Zeroing q (as ++ [a.trim n]) := by
  cases a with
  | ask => exact h
  | unlink p => exact h.above.append (zeroing_of_ne (by simp [Act.trim]))
  | write p offset bytes =>
    by_cases hp : p = q
    · subst hp
      obtain ⟨hzero, hstart⟩ := h as offset bytes List.prefix_rfl
      exact h.above.write (fun b hb => hzero b (List.mem_of_mem_take hb)) hstart
    · exact h.above.append (zeroing_of_ne (by simp [Act.trim, Ne.symm hp]))

/-- It is zeros that are written, wherever it stops. -/
theorem Zeroing.performed (h : Zeroing q as) (faults : List (Option Fault)) :
    Zeroing q (performed as faults) := by
  rcases performed_cases as faults with hall | ⟨before, a, n, after, rfl, hdone⟩
  · rwa [hall]
  · rw [List.append_cons] at h
    rw [hdone]
    exact h.above.trim n

theorem splice_nil (old : Bytes) (offset : ℕ) : Tree.splice old offset [] = old := by
  rw [Tree.splice, List.append_nil, List.length_nil, Nat.add_zero, List.take_append_drop]

/-- Zeros at the start, or further on where there is one already. -/
theorem head?_splice (hzero : ∀ b ∈ bytes, b = 0) (hne : bytes ≠ [])
    (hstart : offset = 0 ∨ old.head? = some 0) : (Tree.splice old offset bytes).head? = some 0 := by
  obtain ⟨b, bytes, rfl⟩ := List.exists_cons_of_ne_nil hne
  obtain rfl : b = 0 := hzero b List.mem_cons_self
  cases offset with
  | zero => rw [Tree.splice, List.take_zero]; rfl
  | succ n =>
    have hold : old.head? = some 0 := hstart.resolve_left (Nat.succ_ne_zero n)
    cases old with
    | nil => cases hold
    | cons first old =>
      rw [List.head?_cons] at hold
      rw [Tree.splice, List.take_succ_cons]
      exact hold

/-- A file that stays holds its bytes, or bytes that begin with a zero. -/
theorem node_zeroing (hq : q ≠ []) (hfile : t.node q = some (.file old)) (h : Zeroing q as)
    (hkeep : .unlink q ∉ as) : ∃ new : Bytes, (effects as t).node q = some (.file new) ∧
      (Wrote q as → new.head? = some 0) ∧ (¬ Wrote q as → new = old) := by
  induction as using List.reverseRecOn with
  | nil =>
    refine ⟨old, hfile, ?_, fun _ => rfl⟩
    rintro ⟨_, _, _, hmem⟩
    exact absurd hmem List.not_mem_nil
  | append_singleton as a ih =>
    obtain ⟨new, hnew, hwrote, hnot⟩ := ih h.above fun hmem => hkeep (List.mem_append_left _ hmem)
    rw [effects_append]
    by_cases hplace : a.place = some q
    · cases a with
      | ask => cases hplace
      | unlink p =>
        cases hplace
        exact absurd (List.mem_append_right _ List.mem_cons_self) hkeep
      | write p offset bytes =>
        cases hplace
        obtain ⟨hzero, hstart⟩ := h as offset bytes List.prefix_rfl
        have hnode : (effects [.write q offset bytes] (effects as t)).node q =
            some (.file (Tree.splice new offset bytes)) := by
          rw [effects_cons, effects_nil, Act.effect, Tree.spliceAt, hnew]
          exact Tree.node_put_self hq
        refine ⟨_, hnode, ?_, ?_⟩
        · rintro ⟨offset', bytes', hne, hmem⟩
          by_cases hempty : bytes = []
          · subst hempty
            rw [splice_nil]
            refine hwrote ⟨offset', bytes', hne, ?_⟩
            rcases List.mem_append.mp hmem with hmem | hmem
            · exact hmem
            · rw [List.mem_singleton] at hmem
              cases hmem
              exact absurd rfl hne
          · exact head?_splice hzero hempty (hstart.imp_right hwrote)
        · intro hno
          have hempty : bytes = [] := by
            by_contra hne
            exact hno ⟨offset, bytes, hne, List.mem_append_right _ List.mem_cons_self⟩
          rw [hempty, splice_nil]
          exact hnot fun hw => hno (hw.append _)
    · have hiff : Wrote q (as ++ [a]) ↔ Wrote q as := by
        refine ⟨?_, (·.append _)⟩
        rintro ⟨offset, bytes, hne, hmem⟩
        refine ⟨offset, bytes, hne, ?_⟩
        rcases List.mem_append.mp hmem with hmem | hmem
        · exact hmem
        · rw [List.mem_singleton] at hmem
          subst hmem
          exact absurd rfl hplace
      rw [effects_cons, effects_nil, a.node_effect hplace, hiff]
      exact ⟨new, hnew, hwrote, hnot⟩

/-! ### What is outside a path -/

/-- Outside `top` the nodes are the same, and in the same order. -/
structure Elsewhere (top : Path) (t t' : Tree) : Prop where
  keys : t'.keys.filter (fun k => ¬ top <+: k) = t.keys.filter fun k => ¬ top <+: k
  node : ∀ p, ¬ top <+: p → t'.node p = t.node p

instance : IsPreorder Tree (Elsewhere top) where
  refl _ := ⟨rfl, fun _ _ => rfl⟩
  trans _ _ _ htu huv :=
    ⟨huv.keys.trans htu.keys, fun p hp => (huv.node p hp).trans (htu.node p hp)⟩

theorem filter_remove (t : Tree) (hp : top <+: p) :
    (t.remove p).keys.filter (fun k => ¬ top <+: k) = t.keys.filter fun k => ¬ top <+: k := by
  have herase := @List.Nodup.erase_eq_filter Path instBEqOfDecidableEq inferInstance _
    t.keys_nodup p
  rw [Tree.remove, AList.keys_erase, herase, List.filter_filter]
  refine List.filter_congr fun k _ => ?_
  by_cases hk : top <+: k
  · simp [hk]
  · have hne : k ≠ p := fun he => hk (he ▸ hp)
    simp [hk, hne]

theorem elsewhere_put (hp : top <+: p) (n : Node) : Elsewhere top t (t.put p n) := by
  refine ⟨?_, fun q hq => Tree.node_put_of_ne fun he => hq (he ▸ hp)⟩
  unfold Tree.put
  split
  · rfl
  · rw [AList.keys_insert, List.filter_cons_of_neg (by simpa using hp), ← AList.keys_erase]
    exact filter_remove t hp

theorem elsewhere_remove (hp : top <+: p) : Elsewhere top t (t.remove p) :=
  ⟨filter_remove t hp, fun _ hq => Tree.node_remove_of_ne fun he => hq (he ▸ hp)⟩

theorem elsewhere_effect (h : ∀ p, a.place = some p → top <+: p) (t : Tree) :
    Elsewhere top t (a.effect t) := by
  cases a with
  | ask => exact refl_of (Elsewhere top) t
  | write p offset bytes =>
    rw [Act.effect]
    rcases t.spliceAt_cases p offset bytes with hsame | ⟨old, -, hput⟩
    · rw [hsame]
      exact refl_of (Elsewhere top) t
    · rw [hput]
      exact elsewhere_put (h p rfl) _
  | unlink p => exact elsewhere_remove (h p rfl)

/-- Operations at or below `top` leave what is outside it. -/
theorem elsewhere_effects (h : ∀ a ∈ as, ∀ p, a.place = some p → top <+: p) (t : Tree) :
    Elsewhere top t (effects as t) := by
  induction as generalizing t with
  | nil => exact refl_of (Elsewhere top) t
  | cons a as ih =>
    exact trans_of (Elsewhere top) (elsewhere_effect (h a List.mem_cons_self) t)
      (ih (fun b hb => h b (List.mem_cons_of_mem a hb)) _)

/-- The names of a directory that are outside `top`, told by the paths that are. -/
theorem entries_filter (t : Tree) (top q : Path) :
    (t.entries q).filter (fun name => ¬ top <+: q ++ [name]) =
      ((t.keys.filter fun k => ¬ top <+: k).filterMap fun k =>
        if k.dropLast = q then k.getLast? else none).filter (· ≠ "..") := by
  rw [Tree.entries, List.filter_comm, List.filterMap_filter]
  congr 1
  rw [List.filter_filterMap]
  refine List.filterMap_congr fun k _ => ?_
  by_cases hdrop : k.dropLast = q
  · subst hdrop
    rw [if_pos rfl]
    rcases k.eq_nil_or_concat with rfl | ⟨above, name, rfl⟩
    · simp
    · simp [Option.filter]
  · simp [hdrop]

theorem children_filter (t : Tree) (top q : Path) :
    (t.children q).filter (fun e => ¬ top <+: q ++ [e.1]) =
      ((t.entries q).filter fun name => ¬ top <+: q ++ [name]).filterMap fun name =>
        (t.node (q ++ [name])).map (name, ·) := by
  rw [Tree.children, List.filter_filterMap, List.filterMap_filter]
  refine List.filterMap_congr fun name _ => ?_
  cases t.node (q ++ [name]) with
  | none => simp
  | some n => simp [Option.filter]

/-- The entries outside `top` of a directory. -/
theorem Elsewhere.children_filter (h : Elsewhere top t t') (q : Path) :
    (t'.children q).filter (fun e => ¬ top <+: q ++ [e.1]) =
      (t.children q).filter fun e => ¬ top <+: q ++ [e.1] := by
  have hentries : (t'.entries q).filter (fun name => ¬ top <+: q ++ [name]) =
      (t.entries q).filter fun name => ¬ top <+: q ++ [name] := by
    rw [entries_filter, entries_filter, h.keys]
  rw [FileTree.children_filter, FileTree.children_filter, hentries]
  refine List.filterMap_congr fun name hname => ?_
  rw [h.node _ (of_decide_eq_true (List.mem_filter.mp hname).2)]

/-- A directory with nothing at or below `top` in it. -/
theorem Elsewhere.children (h : Elsewhere top t t') (hq : ∀ name, ¬ top <+: q ++ [name]) :
    t'.children q = t.children q := by
  have hall : ∀ u : Tree, (u.children q).filter (fun e => ¬ top <+: q ++ [e.1]) = u.children q :=
    fun u => List.filter_eq_self.mpr fun e _ => decide_eq_true (hq e.1)
  rw [← hall t', h.children_filter, hall t]

end FileTree
