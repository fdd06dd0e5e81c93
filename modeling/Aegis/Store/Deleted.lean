import Aegis.Lib.FileApart
import Aegis.Store.Listing
import Aegis.Store.Shredded

/-! What a delete leaves that stops before its end: of the other profiles, of the listing, and of
the profile itself. -/
namespace Aegis.Store
open Text FileTree FileTree.Run

/-! ### What the shredders perform -/

section Shredding

variable {t : Tree} {p q a top : Path} {before : List Act} {act : Act}

namespace OverwriteShredder

variable {s : OverwriteShredder}

theorem mem_zeroWrites {len remaining : ℕ} (h : act ∈ zeroWrites p len remaining) :
    ∃ offset bytes, act = .write p offset bytes := by
  induction remaining using Nat.strong_induction_on with
  | _ remaining ih =>
    unfold zeroWrites at h
    split at h
    · cases h
    · have hchunk : 0 < chunk := by decide
      rcases List.mem_cons.mp h with rfl | h
      · exact ⟨_, _, rfl⟩
      · exact ih _ (by omega) h

theorem mem_passActs {len passes : ℕ} (h : act ∈ passActs p len passes) :
    act = .ask ∨ ∃ offset bytes, act = .write p offset bytes := by
  induction passes with
  | zero => cases h
  | succ passes ih =>
    simp only [passActs, List.mem_cons, List.mem_append] at h
    rcases h with rfl | h | rfl | rfl | h
    · exact .inl rfl
    · exact .inr (mem_zeroWrites h)
    · exact .inl rfl
    · exact .inl rfl
    · exact ih h

theorem mem_fileActs {len : ℕ} (h : act ∈ s.fileActs p len) :
    act = .ask ∨ ∃ offset bytes, act = .write p offset bytes := by
  rcases List.mem_cons.mp h with rfl | h
  · exact .inl rfl
  · split at h
    · cases h
    · rcases List.mem_cons.mp h with rfl | h
      · exact .inl rfl
      · exact mem_passActs h

/-- Up to the removal there are writes below `top` at most. -/
theorem mem_overwriteActs (h : act ∈ s.overwriteActs t top) :
    act = .ask ∨ ∃ f offset bytes, act = .write (top ++ f) offset bytes := by
  rcases List.mem_cons.mp h with rfl | h
  · exact .inl rfl
  · rcases List.mem_append.mp h with h | h
    · exact .inl (List.eq_of_mem_replicate h)
    · obtain ⟨f, -, h⟩ := List.mem_flatMap.mp h
      exact (mem_fileActs h).imp_right fun ⟨offset, bytes, he⟩ => ⟨f, offset, bytes, he⟩

theorem zeroing_zeroWrites {len remaining : ℕ} (h : Zeroing q before)
    (hstart : len - remaining = 0 ∨ Wrote p before) :
    Zeroing q (before ++ zeroWrites p len remaining) := by
  induction remaining using Nat.strong_induction_on generalizing before with
  | _ remaining ih =>
    unfold zeroWrites
    split
    · rwa [List.append_nil]
    · rename_i hpos
      have hchunk : 0 < chunk := by decide
      have hzero : ∀ b ∈ List.replicate (min remaining chunk) (0 : UInt8), b = 0 :=
        fun b hb => List.eq_of_mem_replicate hb
      have hne : List.replicate (min remaining chunk) (0 : UInt8) ≠ [] := by
        rw [Ne, List.replicate_eq_nil_iff]
        omega
      rw [List.append_cons]
      exact ih _ (by omega) (h.write hzero hstart)
        (.inr ⟨_, _, hne, List.mem_append_right _ List.mem_cons_self⟩)

theorem zeroing_passActs (q p : Path) (len passes : ℕ) : Zeroing q (passActs p len passes) := by
  have hask : Zeroing q [.ask] := zeroing_of_ne (by simp)
  induction passes with
  | zero => exact zeroing_of_ne (by simp [passActs])
  | succ passes ih =>
    have hwrites : Zeroing q ([.ask] ++ zeroWrites p len len) :=
      zeroing_zeroWrites hask (.inl (Nat.sub_self len))
    exact hwrites.append (hask.append (hask.append ih))

theorem zeroing_fileActs (q p : Path) (len : ℕ) : Zeroing q (s.fileActs p len) := by
  have hask : Zeroing q [.ask] := zeroing_of_ne (by simp)
  have hrest : Zeroing q (if len = 0 then [] else .ask :: passActs p len s.passes.toNat) := by
    split
    · exact zeroing_of_ne (by simp)
    · exact hask.append (zeroing_passActs q p len _)
  exact hask.append hrest

theorem zeroing_overwriteActs (q : Path) (s : OverwriteShredder) (t : Tree) (top : Path) :
    Zeroing q (s.overwriteActs t top) := by
  have hasks : ∀ n, Zeroing q (.ask :: List.replicate n .ask) := fun n => by
    refine zeroing_of_ne fun offset bytes hmem => ?_
    rcases List.mem_cons.mp hmem with he | hmem
    · cases he
    · cases List.eq_of_mem_replicate hmem
  refine (hasks _).append ?_
  generalize filesBelow t top = files
  induction files with
  | nil => exact zeroing_of_ne (by simp [filesActs])
  | cons f files ih =>
    rw [filesActs, List.flatMap_cons]
    exact (zeroing_fileActs q _ _).append ih

end OverwriteShredder

namespace Shredder

variable {s : Shredder}

/-- The operations up to the removal. -/
def writes : Shredder → Tree → Path → List Act
  | overwrite s, t, top => s.overwriteActs t top
  | removeOnly, _, _ => []

/-- The operations that shred the directory at `top`. -/
def acts (s : Shredder) (t : Tree) (top : Path) : List Act :=
  s.writes t top ++ OverwriteShredder.removeActs (effects (s.writes t top) t) top

theorem mem_writes (h : act ∈ s.writes t top) :
    act = .ask ∨ ∃ f offset bytes, act = .write (top ++ f) offset bytes := by
  cases s with
  | overwrite s => exact OverwriteShredder.mem_overwriteActs h
  | removeOnly => cases h

theorem zeroing_writes (q : Path) (s : Shredder) (t : Tree) (top : Path) :
    Zeroing q (s.writes t top) := by
  cases s with
  | overwrite s => exact OverwriteShredder.zeroing_overwriteActs q s t top
  | removeOnly => exact zeroing_of_ne fun _ _ => List.not_mem_nil

theorem mem_removeActs (h : act ∈ OverwriteShredder.removeActs t top) :
    act = .ask ∨ ∃ q ∈ t.belowRev top, act = .unlink q := by
  rcases List.mem_cons.mp h with rfl | h
  · exact .inl rfl
  · obtain ⟨q, hq, rfl⟩ := List.mem_map.mp h
    exact .inr ⟨q, hq, rfl⟩

theorem zeroing_acts (q : Path) (s : Shredder) (t : Tree) (top : Path) :
    Zeroing q (s.acts t top) := by
  refine (zeroing_writes q s t top).append (zeroing_of_ne fun offset bytes hmem => ?_)
  rcases mem_removeActs hmem with he | ⟨q, -, he⟩
  · cases he
  · cases he

/-- Nothing outside the directory is written to or removed. -/
theorem place_acts (h : act ∈ s.acts t top) (hp : act.place = some p) : top <+: p := by
  rcases List.mem_append.mp h with h | h
  · rcases mem_writes h with rfl | ⟨f, offset, bytes, rfl⟩
    · cases hp
    · cases hp
      exact List.prefix_append top f
  · rcases mem_removeActs h with rfl | ⟨q, hq, rfl⟩
    · cases hp
    · cases hp
      exact (OverwriteShredder.mem_belowRev.mp hq).2

theorem overwritten_writes (h : OverwriteShredder.NamesDir t a top) (s : Shredder) :
    t.Overwritten (effects (s.writes t top) t) := by
  cases s with
  | overwrite s => exact (OverwriteShredder.overwriteActs_spec h).1
  | removeOnly => exact refl_of Tree.Overwritten t

/-- What is below the directory is to be removed. -/
theorem unlink_mem_acts (h : OverwriteShredder.NamesDir t a top) (hp : top <+: p) (hne : p ≠ [])
    {n : Node} (hn : t.node p = some n) : .unlink p ∈ s.acts t top := by
  have hkeys : p ∈ (effects (s.writes t top) t).keys := by
    rcases overwritten_writes h s p with hsame | ⟨old, new, -, -, hnew⟩
    · exact Tree.mem_keys_of_node hne (hsame.trans hn)
    · exact Tree.mem_keys_of_node hne hnew
  exact List.mem_append_right _ (List.mem_cons_of_mem _
    (List.mem_map_of_mem (OverwriteShredder.mem_belowRev.mpr ⟨hkeys, hp⟩)))

theorem pairwise_belowRev (t : Tree) (top : Path) :
    (t.belowRev top).Pairwise fun p q => q.length ≤ p.length := by
  have hsorted : (t.belowRev top).Pairwise fun p q => decide (q.length ≤ p.length) = true := by
    refine List.pairwise_mergeSort (fun a b c hab hbc => ?_) (fun a b => ?_) _
    · rw [decide_eq_true_eq] at hab hbc ⊢
      exact hbc.trans hab
    · rw [Bool.or_eq_true, decide_eq_true_eq, decide_eq_true_eq]
      exact Nat.le_total _ _
  exact hsorted.imp fun h => of_decide_eq_true h

theorem pairwise_acts (s : Shredder) (t : Tree) (top : Path) :
    (s.acts t top).Pairwise Deeper := by
  have hno : ∀ b ∈ s.writes t top, ∀ p, b ≠ .unlink p := by
    intro b hb p
    rcases mem_writes hb with rfl | ⟨f, offset, bytes, rfl⟩
    · nofun
    · nofun
  refine List.pairwise_append.mpr ⟨?_, ?_, fun b hb c _ p q he => absurd he (hno b hb p)⟩
  · exact List.pairwise_of_forall_mem_list fun b hb c _ p q he => absurd he (hno b hb p)
  · refine .cons (fun b _ p q he => nomatch he) (List.pairwise_map.mpr ?_)
    refine (pairwise_belowRev _ top).imp fun hle p q he he' => ?_
    cases he
    cases he'
    exact hle

theorem follows_shred (h : OverwriteShredder.NamesDir t a top) :
    Follows (s.shredDir a) t (s.acts t top) () := by
  cases s with
  | overwrite s => exact OverwriteShredder.follows_shredDir h
  | removeOnly =>
    have hremove := Follows.removeDirAll (OverwriteShredder.doomed_overwritten h
      (refl_of Tree.Overwritten t))
    have hrest : Follows (removeOnlyShredDir a) t (OverwriteShredder.removeActs t top ++ []) () :=
      hremove.attempt (fun _ => rfl) (.pure () _)
    rwa [List.append_nil] at hrest

end Shredder

end Shredding

namespace FileProfileStore

variable {s : FileProfileStore} {t t' : Tree} {id other : ProfileId} {p q : Path}

/-! ### Stores without links of their own -/

/-- A store in which no metadata and no lock of a profile is a link. -/
structure Linkless (s : FileProfileStore) extends Stored s where
  no_link : ∀ id, ∀ name ∈ ["profile.json", "profile.lock"], ∀ target,
    tree.node (s.profileDir id ++ [name]) ≠ some (.link target)

theorem no_link_inside {a : Path} (h : t.Inside a t')
    (hlink : ∀ target, t.node p ≠ some (.link target)) (target : Target) :
    t'.node p ≠ some (.link target) := by
  rcases h p with hsame | ⟨-, hnew, -⟩
  · rw [hsame]
    exact hlink target
  · exact hnew target

theorem no_link_touched {Time : Type} [Chrono Time] [Ord Time] {op : StoreOp Time}
    (h : s.Touches t op t') (hlink : ∀ target, t.node p ≠ some (.link target)) (target : Target) :
    t'.node p ≠ some (.link target) := by
  rcases h with ⟨id, -, hinside⟩ | rfl | ⟨temp, -, rfl | ⟨profile, -, hwrite⟩⟩
  · exact no_link_inside hinside hlink target
  · exact hlink target
  · exact hlink target
  · exact no_link_inside hwrite.inside hlink target

/-- The operations make no links, whatever fails. -/
def Linkless.perform {Time : Type} [Chrono Time] [Ord Time] (u : s.Linkless) (op : StoreOp Time)
    (hfresh : ∀ temp ∈ op.temp, s.Unused u.tree temp) (faults : List (Option Fault)) :
    s.Linkless where
  toStored := u.toStored.perform op hfresh faults
  no_link id name hname :=
    no_link_touched (touches_perform op u.plain hfresh faults) (u.no_link id name hname)

section Linkless

variable {u u' : s.Linkless} {name : FileName}

theorem entry_ne_parent (hname : name ∈ ["profile.json", "profile.lock"]) : name ≠ ".." := by
  rintro rfl
  exact absurd hname (by decide)

/-- On the way to the metadata and to the lock there is no link. -/
theorem Linkless.no_link_above (u : s.Linkless) (id : ProfileId)
    (hname : name ∈ ["profile.json", "profile.lock"]) (q : Path) (target : Target)
    (hq : q <+: s.profileDir id ++ [name]) : u.tree.node q ≠ some (.link target) := by
  rcases List.prefix_concat_iff.mp hq with rfl | hq
  · exact u.no_link id name hname target
  · rcases (u.plain id).node hq with hdir | hnone
    · rw [hdir]
      nofun
    · rw [hnone]
      nofun

/-- Whether there is a lock can always be told. -/
theorem Linkless.lockTold (u : s.Linkless) (id : ProfileId) : s.LockTold u.tree id := by
  have hname : "profile.lock" ∈ ["profile.json", "profile.lock"] := by decide
  intro e he
  rcases Tree.bind_entry (u.plain id) (entry_ne_parent hname) (u.no_link id _ hname)
    u.tree.nodeAt with ⟨hnone, -⟩ | ⟨hnode, -⟩
  · exact (Except.error.inj (hnone.symm.trans he)).symm
  · have hat := hnode.symm.trans he
    unfold Tree.nodeAt at hat
    split at hat <;> cases hat
    rfl

/-- A profile without a file of metadata is missing. -/
theorem Linkless.missing (u : s.Linkless) (hnone : u.tree.node (s.metaPath id) = none) :
    s.Missing u.tree id :=
  Tree.bytesAt_none (u.plain id) (by decide) hnone

/-- Metadata that can be read are in a file. -/
theorem Linkless.file_of_loadable {Time : Type} [Chrono Time] (u : s.Linkless)
    (h : s.Loadable Time u.tree id) : u.tree.Straight [] (s.profileDir id) ∧
      ∃ bytes profile, u.tree.node (s.metaPath id) = some (.file bytes) ∧
        fromSlice (Ipc.Profile Time) bytes = some profile := by
  obtain ⟨⟨profile, hstored⟩, -⟩ := h
  obtain ⟨bytes, hbytes, hprofile⟩ := Option.bind_eq_some_iff.mp hstored
  have hok : u.tree.bytesAt (s.metaPath id) = .ok bytes := by
    cases hat : u.tree.bytesAt (s.metaPath id) with
    | error e =>
      rw [hat] at hbytes
      cases hbytes
    | ok b =>
      rw [hat] at hbytes
      exact congrArg Except.ok (Option.some.inj hbytes)
  obtain ⟨hs, hfile⟩ := (Tree.bytesAt_eq_ok (u.plain id) (by decide)
    (u.no_link id _ List.mem_cons_self)).mp hok
  exact ⟨hs, bytes, profile, hfile, hprofile⟩

/-! ### The other profiles -/

theorem apart {r : Path} (hne : other ≠ id) (hr : s.profileDir other <+: r) (hp : p <+: r) :
    ¬ s.profileDir id <+: p :=
  fun h => hne (id_eq_of_below hr (h.trans hp))

/-- A directory is as large where the nodes below it are the same. -/
theorem sizeAt_congr {top : Path} (hdir : t.node top = some .dir)
    (hnodes : ∀ f, t'.node (top ++ f) = t.node (top ++ f))
    (hchildren : ∀ q, top <+: q → t'.children q = t.children q) :
    sizeAt t' top = sizeAt t top := by
  have hmore : ∀ u : Tree, u.node top = some .dir → ∀ n,
      u.walk top (u.keys.length + 1) [[]] = u.walk top (u.keys.length + 1 + n) [[]] := by
    intro u hu n
    have hle := OverwriteShredder.stackWeight_top u top
    exact Tree.walk_enough hu (OverwriteShredder.straight_top u top) hle (hle.trans (by omega))
  have hdir' : t'.node top = some .dir := by
    have hsame := hnodes []
    rw [List.append_nil] at hsame
    rw [hsame, hdir]
  rw [sizeAt, sizeAt, hmore t' hdir' (t.keys.length + 1), hmore t hdir (t'.keys.length + 1),
    Tree.walk_congr hchildren, Nat.add_comm (t'.keys.length + 1)]
  simp only [addedLens, hnodes]

section Others

variable {Time : Type} [Chrono Time]

theorem resolve_other (h : Elsewhere (s.profileDir id) u.tree u'.tree) (hne : other ≠ id)
    (hname : name ∈ ["profile.json", "profile.lock"]) :
    u'.tree.resolve (s.profileDir other ++ [name]) =
      u.tree.resolve (s.profileDir other ++ [name]) := by
  refine Tree.resolve_congr (fun hmem => ?_) (u.no_link_above other hname) fun q hq =>
    h.node q (apart hne (List.prefix_append _ _) hq)
  rcases List.mem_append.mp hmem with hmem | hmem
  · exact (u.plain other).no_parent hmem
  · exact entry_ne_parent hname (List.mem_singleton.mp hmem).symm

theorem resolve_profileDir (h : Elsewhere (s.profileDir id) u.tree u'.tree) (hne : other ≠ id) :
    u'.tree.resolve (s.profileDir other) = u.tree.resolve (s.profileDir other) := by
  refine Tree.resolve_congr (u.plain other).no_parent (fun q target hq => ?_) fun q hq =>
    h.node q (apart hne List.prefix_rfl hq)
  exact u.no_link_above other List.mem_cons_self q target (hq.trans (List.prefix_append _ _))

/-- What a path into the directory of another profile leads to is the same. -/
theorem bind_other {α : Type} (h : Elsewhere (s.profileDir id) u.tree u'.tree) (hne : other ≠ id)
    (hname : name ∈ ["profile.json", "profile.lock"]) {f g : Path → Except IoError α}
    (hfg : g (s.profileDir other ++ [name]) = f (s.profileDir other ++ [name])) :
    (u'.tree.resolve (s.profileDir other ++ [name])).bind g =
      (u.tree.resolve (s.profileDir other ++ [name])).bind f := by
  rw [resolve_other h hne hname]
  cases hr : u.tree.resolve (s.profileDir other ++ [name]) with
  | error e => rfl
  | ok r =>
    obtain rfl := Tree.resolve_entry (u.plain other) (entry_ne_parent hname)
      (u.no_link other name hname) hr
    exact hfg

theorem bytesAt_other (h : Elsewhere (s.profileDir id) u.tree u'.tree) (hne : other ≠ id) :
    u'.tree.bytesAt (s.metaPath other) = u.tree.bytesAt (s.metaPath other) := by
  have hnode : u'.tree.node (s.metaPath other) = u.tree.node (s.metaPath other) :=
    h.node _ (apart hne (List.prefix_append _ _) List.prefix_rfl)
  refine bind_other h hne List.mem_cons_self ?_
  simp only [show s.profileDir other ++ ["profile.json"] = s.metaPath other from rfl, hnode]

theorem lock_other (h : Elsewhere (s.profileDir id) u.tree u'.tree) (hne : other ≠ id) :
    (u'.tree.resolve (s.lockPath other)).bind u'.tree.nodeAt =
      (u.tree.resolve (s.lockPath other)).bind u.tree.nodeAt := by
  have hnode : u'.tree.node (s.lockPath other) = u.tree.node (s.lockPath other) :=
    h.node _ (apart hne (List.prefix_append _ _) List.prefix_rfl)
  refine bind_other h hne (List.mem_cons_of_mem _ List.mem_cons_self) ?_
  simp only [show s.profileDir other ++ ["profile.lock"] = s.lockPath other from rfl, Tree.nodeAt,
    hnode]

theorem sizeAt_other (h : Elsewhere (s.profileDir id) u.tree u'.tree) (hne : other ≠ id)
    (hdir : u.tree.node (s.profileDir other) = some .dir) :
    sizeAt u'.tree (s.profileDir other) = sizeAt u.tree (s.profileDir other) := by
  refine sizeAt_congr hdir (fun f => ?_) fun q hq => h.children fun name => ?_
  · exact h.node _ (apart hne (List.prefix_append _ f) List.prefix_rfl)
  · exact apart hne (hq.trans (List.prefix_append q [name])) List.prefix_rfl

theorem storedMeta_other (h : Elsewhere (s.profileDir id) u.tree u'.tree) (hne : other ≠ id) :
    s.storedMeta u'.tree other = (s.storedMeta u.tree other : Option (Ipc.Profile Time)) := by
  rw [storedMeta, storedMeta, bytesAt_other h hne]

theorem eval_readMeta_other (h : Elsewhere (s.profileDir id) u.tree u'.tree) (hne : other ≠ id) :
    (eval (s.readMeta other : Run Error (Ipc.Profile Time)) ⟨u'.tree, []⟩).1 =
      (eval (s.readMeta other : Run Error (Ipc.Profile Time)) ⟨u.tree, []⟩).1 := by
  have hread : ∀ t, eval (readFile (s.metaPath other)) ⟨t, []⟩ =
      (t.bytesAt (s.metaPath other), ⟨t, []⟩) := by
    intro t
    rw [readFile, query, eval_fallible]
    cases t.bytesAt (s.metaPath other) <;> rfl
  rw [readMeta, eval_bind, eval_bind, eval_attempt, eval_attempt, hread, hread,
    bytesAt_other h hne]
  rcases u.tree.bytesAt (s.metaPath other) with e | bytes
  · cases e <;> rfl
  · simp only
    cases fromSlice (Ipc.Profile Time) bytes <;> rfl

/-- `get` of another profile tells what it told before. -/
theorem eval_load_other (h : Elsewhere (s.profileDir id) u.tree u'.tree) (hne : other ≠ id) :
    (eval (s.loadRefreshed other : Run Error (Ipc.Profile Time)) ⟨u'.tree, []⟩).1 =
      (eval (s.loadRefreshed other : Run Error (Ipc.Profile Time)) ⟨u.tree, []⟩).1 := by
  cases hstored : (s.storedMeta u.tree other : Option (Ipc.Profile Time)) with
  | some profile =>
    have hstored' := (storedMeta_other h hne).trans hstored
    obtain ⟨q, hq, hdir⟩ := resolve_of_stored hstored
    obtain rfl := Tree.resolve_plain (u.plain other) hq
    rw [eval_loadRefreshed_stored hstored (u.lockTold other),
      eval_loadRefreshed_stored hstored' (u'.lockTold other), refreshed, refreshed,
      resolve_profileDir h hne, lock_other h hne, hq]
    simp only [Except.toOption, Option.map_some, sizeAt_other h hne hdir]
  | none =>
    -- the metadata are not read, before and after
    have herror : ∀ t, s.storedMeta t other = (none : Option (Ipc.Profile Time)) →
        ∃ e, eval (s.readMeta other : Run Error (Ipc.Profile Time)) ⟨t, []⟩ =
          (.error e, ⟨t, []⟩) := by
      intro t ht
      by_cases hmissing : s.Missing t other
      · exact ⟨_, eval_readMeta_missing hmissing⟩
      · obtain ⟨e, he, -⟩ := eval_readMeta_unread hmissing ht
        exact ⟨e, he⟩
    obtain ⟨e, he⟩ := herror u.tree hstored
    obtain ⟨e', he'⟩ := herror u'.tree ((storedMeta_other h hne).trans hstored)
    have hread : (eval (s.readMeta other : Run Error (Ipc.Profile Time)) ⟨u'.tree, []⟩).1 =
        (eval (s.readMeta other) ⟨u.tree, []⟩).1 := eval_readMeta_other h hne
    rw [he, he'] at hread
    rw [loadRefreshed, eval_bind, eval_bind, he, he']
    exact hread

theorem loaded_other (h : Elsewhere (s.profileDir id) u.tree u'.tree) (hne : other ≠ id) :
    s.loaded u'.tree other = (s.loaded u.tree other : Option (Ipc.Profile Time)) := by
  rw [loaded, eval_load_other h hne, loaded]

theorem missing_or_loadable_other (h : Elsewhere (s.profileDir id) u.tree u'.tree)
    (hne : other ≠ id) (hbefore : s.Missing u.tree other ∨ s.Loadable Time u.tree other) :
    s.Missing u'.tree other ∨ s.Loadable Time u'.tree other := by
  rcases hbefore with hmissing | hload
  · exact .inl ((bytesAt_other h hne).trans hmissing)
  · refine .inr (loaded_isSome.mp ?_)
    rw [loaded_other h hne]
    exact loaded_isSome.mpr hload

end Others

/-! ### The listing -/

section Entries

theorem root_above (s : FileProfileStore) (id : ProfileId) : s.root <+: s.profileDir id :=
  (profileDir_below_root s id).1

theorem Linkless.plain_root (u : s.Linkless) : u.tree.Plain [] s.root :=
  (u.plain ⟨0⟩).above (root_above s ⟨0⟩)

/-- The root can be read, or is not there. -/
theorem Linkless.root_told (u : s.Linkless) :
    ∀ e, u.tree.entriesAt s.root = .error e → e = .notFound := by
  intro e he
  rcases Tree.entriesAt_plain u.plain_root with ⟨-, hok⟩ | ⟨-, hnone⟩
  · rw [hok] at he
    cases he
  · exact (Except.error.inj (hnone.symm.trans he)).symm

theorem straight_root_iff (h : Elsewhere (s.profileDir id) u.tree u'.tree) :
    u'.tree.Straight [] s.root ↔ u.tree.Straight [] s.root := by
  have hnodes : ∀ q, q <+: [] ++ s.root → u'.tree.node q = u.tree.node q := by
    refine fun q hq => h.node q fun hle => not_below_dir s.root id.uuid.display ?_
    exact hle.trans hq
  exact ⟨fun hs => hs.congr fun q hq => (hnodes q hq).symm, fun hs => hs.congr hnodes⟩

/-- A directory of the root that does not name the profile is outside its directory. -/
theorem Linkless.outside_of_entryId (u : s.Linkless) {e : FileName × Node}
    (he : e ∈ u.tree.children s.root) (hid : entryId e ≠ some id) :
    ¬ s.profileDir id <+: s.root ++ [e.1] := by
  intro hle
  obtain ⟨name, n⟩ := e
  have hsame : s.root ++ [id.uuid.display] = s.root ++ [name] :=
    hle.eq_of_length (by simp [profileDir])
  obtain rfl : id.uuid.display = name := List.head_eq_of_cons_eq (List.append_cancel_left hsame)
  have hn : u.tree.node (s.profileDir id) = some n := (Tree.mem_children.mp he).2
  rcases (u.plain id).node List.prefix_rfl with hdir | hnone
  · rw [hdir] at hn
    obtain rfl := Option.some.inj hn
    exact hid (entryId_display id)
  · rw [hnone] at hn
    cases hn

/-- The entries of the root that do not name the profile are the same. -/
theorem rootEntries_filter (h : Elsewhere (s.profileDir id) u.tree u'.tree) :
    (s.rootEntries u'.tree).filter (fun e => entryId e ≠ some id) =
      (s.rootEntries u.tree).filter fun e => entryId e ≠ some id := by
  have houtside : ∀ v : s.Linkless,
      (v.tree.children s.root).filter (fun e => entryId e ≠ some id) =
        ((v.tree.children s.root).filter fun e => ¬ s.profileDir id <+: s.root ++ [e.1]).filter
          fun e => entryId e ≠ some id := by
    intro v
    rw [List.filter_filter]
    refine List.filter_congr fun e he => ?_
    by_cases hid : entryId e = some id
    · simp [hid]
    · simp [hid, v.outside_of_entryId he hid]
  rcases Tree.entriesAt_plain u.plain_root with ⟨hs, hok⟩ | ⟨hs, hnone⟩
  · have hok' := ((Tree.entriesAt_plain u'.plain_root).resolve_right fun hb =>
      hb.1 ((straight_root_iff h).mpr hs)).2
    rw [(rootEntries_of_ok hok).1, (rootEntries_of_ok hok').1, houtside, h.children_filter,
      ← houtside]
  · have hnone' := ((Tree.entriesAt_plain u'.plain_root).resolve_left fun hb =>
      hs ((straight_root_iff h).mp hb.1)).2
    rw [rootEntries, rootEntries, hnone, hnone']

end Entries

section Listed

variable {Time : Type} [Chrono Time]

theorem of_mem_own {es : List (FileName × Node)} {profile : Ipc.Profile Time}
    (h : profile ∈ (es.filter fun e => entryId e = some id).filterMap (s.entryLoad t)) :
    s.loaded t id = some profile := by
  obtain ⟨e, he, hload⟩ := List.mem_filterMap.mp h
  have hid : entryId e = some id := of_decide_eq_true (List.mem_filter.mp he).2
  rwa [entryLoad, hid, Option.bind_some] at hload

/-- What the other entries add is the same. -/
theorem filterMap_others (h : Elsewhere (s.profileDir id) u.tree u'.tree) :
    ((s.rootEntries u'.tree).filter fun e => entryId e ≠ some id).filterMap
        (s.entryLoad u'.tree) =
      (((s.rootEntries u.tree).filter fun e => entryId e ≠ some id).filterMap
        (s.entryLoad u.tree) : List (Ipc.Profile Time)) := by
  rw [rootEntries_filter h]
  refine List.filterMap_congr fun e he => ?_
  have hid : entryId e ≠ some id := of_decide_eq_true (List.mem_filter.mp he).2
  rw [entryLoad, entryLoad]
  cases hother : entryId e with
  | none => rfl
  | some other =>
    have hne : other ≠ id := by
      rintro rfl
      exact hid hother
    exact loaded_other h hne

variable [Ord Time]

/-- The listing still succeeds, with the same of the other profiles; the rest are loads of the
profile itself, before and after. -/
def ListsOthers (Time : Type) [Chrono Time] [Ord Time] (s : FileProfileStore) (id : ProfileId)
    (t t' : Tree) : Prop :=
  ∀ out : List (Ipc.Profile Time), (eval s.list ⟨t, []⟩).1 = .ok out →
    ∃ out' others own own' : List (Ipc.Profile Time), (eval s.list ⟨t', []⟩).1 = .ok out' ∧
      out.Perm (others ++ own) ∧ out'.Perm (others ++ own') ∧
      (∀ profile ∈ others, ∃ other, other ≠ id ∧ s.loaded t other = some profile) ∧
      (∀ profile ∈ own, s.loaded t id = some profile) ∧
      ∀ profile ∈ own', s.loaded t' id = some profile

theorem eval_list_ok (u : s.Linkless) (hall : ∀ e ∈ s.rootEntries u.tree, ∀ id,
      entryId e = some id → s.Missing u.tree id ∨ s.Loadable Time u.tree id) :
    (eval (s.list : Run Error (List (Ipc.Profile Time))) ⟨u.tree, []⟩).1 =
      .ok (((s.rootEntries u.tree).filterMap (s.entryLoad u.tree)).mergeSort listedBefore) := by
  rw [eval_list u.root_told, eval_loadEntries hall]
  rfl

/-- A listing that succeeds has met nothing that cannot be loaded. -/
theorem all_of_list_ok (u : s.Linkless) {out : List (Ipc.Profile Time)}
    (hout : (eval s.list ⟨u.tree, []⟩).1 = .ok out) : ∀ e ∈ s.rootEntries u.tree, ∀ id,
      entryId e = some id → s.Missing u.tree id ∨ s.Loadable Time u.tree id := by
  intro e he id hid
  by_contra hnot
  rw [not_or] at hnot
  obtain ⟨err, herr⟩ := eval_loadEntries_failed he hid hnot.1 hnot.2 []
  rw [eval_list u.root_told, herr] at hout
  cases hout

/-- The entries that name the profile, and those that do not. -/
theorem perm_loads (t : Tree) (id : ProfileId) (es : List (FileName × Node)) :
    (((es.filterMap (s.entryLoad t)).mergeSort listedBefore) : List (Ipc.Profile Time)).Perm
      ((es.filter fun e => entryId e ≠ some id).filterMap (s.entryLoad t) ++
        (es.filter fun e => entryId e = some id).filterMap (s.entryLoad t)) := by
  have hsplit := (List.filter_append_perm (fun e => decide (entryId e ≠ some id)) es).symm
  refine (List.mergeSort_perm _ _).trans ((hsplit.filterMap _).trans ?_)
  rw [List.filterMap_append]
  simp

/-- A profile that is gone or can be loaded does not keep the others from being listed. -/
theorem listsOthers_of (h : Elsewhere (s.profileDir id) u.tree u'.tree)
    (hown : s.Missing u'.tree id ∨ s.Loadable Time u'.tree id) :
    s.ListsOthers Time id u.tree u'.tree := by
  intro out hout
  have hall := all_of_list_ok u hout
  have hall' : ∀ e ∈ s.rootEntries u'.tree, ∀ x, entryId e = some x →
      s.Missing u'.tree x ∨ s.Loadable Time u'.tree x := by
    intro e he x hx
    by_cases hxid : x = id
    · rw [hxid]
      exact hown
    · have hmem : e ∈ (s.rootEntries u'.tree).filter fun e => entryId e ≠ some id := by
        refine List.mem_filter.mpr ⟨he, decide_eq_true ?_⟩
        rw [hx]
        exact fun heq => hxid (Option.some.inj heq)
      rw [rootEntries_filter h] at hmem
      exact missing_or_loadable_other h hxid (hall e (List.mem_filter.mp hmem).1 x hx)
  rw [eval_list_ok u hall] at hout
  obtain rfl := Except.ok.inj hout
  have hperm' : (((s.rootEntries u'.tree).filterMap (s.entryLoad u'.tree)).mergeSort
      listedBefore : List (Ipc.Profile Time)).Perm _ :=
    perm_loads u'.tree id (s.rootEntries u'.tree)
  rw [filterMap_others h] at hperm'
  refine ⟨_, _, _, _, eval_list_ok u' hall', perm_loads u.tree id _, hperm', ?_,
    fun profile => of_mem_own, fun profile => of_mem_own⟩
  intro profile hmem
  obtain ⟨e, he, hload⟩ := List.mem_filterMap.mp hmem
  have hid : entryId e ≠ some id := of_decide_eq_true (List.mem_filter.mp he).2
  obtain ⟨other, hother, hloaded⟩ := Option.bind_eq_some_iff.mp hload
  exact ⟨other, fun heq => hid (heq ▸ hother), hloaded⟩

end Listed

/-! ### The delete -/

section Delete

variable {Time : Type} [Chrono Time] {faults : List (Option Fault)}

/-- The operations of a delete. -/
def deleteActs (s : FileProfileStore) (t : Tree) (id : ProfileId) : List Act :=
  .ask :: s.shredder.acts t (s.profileDir id)

theorem namesDir (hs : t.Straight [] (s.profileDir id)) :
    OverwriteShredder.NamesDir t (s.profileDir id) (s.profileDir id) :=
  ⟨Tree.locate_straight (Tree.straight_append.mp hs).1, Tree.resolve_straight hs,
    Tree.node_of_straight hs⟩

/-- A delete performs its operations up to the first fault, and all of them where it succeeds. -/
theorem eval_delete (hs : t.Straight [] (s.profileDir id)) (faults : List (Option Fault)) :
    (eval (s.delete id) ⟨t, faults⟩).2.tree = effects (performed (s.deleteActs t id) faults) t ∧
      ((eval (s.delete id) ⟨t, faults⟩).1 = .ok () →
        performed (s.deleteActs t id) faults = s.deleteActs t id) := by
  have hmeta : (t.resolve (s.profileDir id)).bind t.nodeAt = .ok .dir := by
    simp only [Tree.resolve_straight hs, Except.bind, Tree.nodeAt, Tree.node_of_straight hs]
  have hshred := Shredder.follows_shred (s := s.shredder) (namesDir hs)
  rw [delete, eval_bind, eval_attempt, metadata, eval_query_met, hmeta, World.fault_zero,
    deleteActs, performed]
  cases faults.head?.join with
  | some f => exact ⟨rfl, by rintro ⟨⟩⟩
  | none =>
    refine ⟨hshred.tree faults.tail, fun hok => ?_⟩
    have hmapped : (eval (s.shredder.shredDir (s.profileDir id)) ⟨t, faults.tail⟩).1.mapError
        IoError.toError = .ok () := hok
    cases hrun : (eval (s.shredder.shredDir (s.profileDir id)) ⟨t, faults.tail⟩).1 with
    | error e =>
      rw [hrun] at hmapped
      cases hmapped
    | ok r =>
      have hall := hshred.performed_of_ok hrun
      simp only [hall]

/-- Without its directory a profile is not deleted. -/
theorem eval_delete_missing (hplain : t.Plain [] (s.profileDir id))
    (hs : ¬ t.Straight [] (s.profileDir id)) (faults : List (Option Fault)) :
    (eval (s.delete id) ⟨t, faults⟩).2.tree = t := by
  have hmeta : (t.resolve (s.profileDir id)).bind t.nodeAt = .error .notFound := by
    refine ((Tree.bind_plain hplain fun hnone => ?_).resolve_left fun hb => hs hb.1).2
    rw [Tree.nodeAt, hnone]
  rw [delete, eval_bind, eval_attempt, metadata, eval_query_met, hmeta]
  cases World.fault ⟨t, faults⟩ 0 <;> rfl

/-- What a delete leaves of a store. -/
def Linkless.deleted (u : s.Linkless) (id : ProfileId) (faults : List (Option Fault)) :
    s.Linkless where
  tree := (eval (s.delete id) ⟨u.tree, faults⟩).2.tree
  plain := plain_of_inside u.plain (keeps_delete id ⟨u.tree, faults⟩ (u.plain id)).1
  no_link other name hname :=
    no_link_inside (keeps_delete id ⟨u.tree, faults⟩ (u.plain id)).1 (u.no_link other name hname)

theorem elsewhere_deleted (u : s.Linkless) (id : ProfileId) (faults : List (Option Fault)) :
    Elsewhere (s.profileDir id) u.tree (u.deleted id faults).tree := by
  show Elsewhere _ u.tree (eval (s.delete id) ⟨u.tree, faults⟩).2.tree
  by_cases hs : u.tree.Straight [] (s.profileDir id)
  · rw [(eval_delete hs faults).1]
    refine elsewhere_effects (fun a ha p hp => ?_) _
    obtain ⟨b, hb, hplace⟩ := place_performed ha hp
    rcases List.mem_cons.mp hb with rfl | hb
    · cases hplace
    · exact Shredder.place_acts hb hplace
  · rw [eval_delete_missing (u.plain id) hs]
    exact refl_of (Elsewhere _) _

theorem unlink_mem_deleteActs (hs : t.Straight [] (s.profileDir id)) {n : Node}
    (hn : t.node (s.metaPath id) = some n) : .unlink (s.metaPath id) ∈ s.deleteActs t id := by
  have hne : s.metaPath id ≠ [] := by simp [metaPath]
  exact List.mem_cons_of_mem _
    (Shredder.unlink_mem_acts (namesDir hs) (List.prefix_append _ _) hne hn)

/-- What is left of the metadata. -/
theorem node_deleted (u : s.Linkless) (hs : u.tree.Straight [] (s.profileDir id)) {bytes : Bytes}
    (hfile : u.tree.node (s.metaPath id) = some (.file bytes))
    (hkeep : .unlink (s.metaPath id) ∉ performed (s.deleteActs u.tree id) faults) :
    (u.deleted id faults).tree.Straight [] (s.profileDir id) ∧
      ∃ new : Bytes, (u.deleted id faults).tree.node (s.metaPath id) = some (.file new) ∧
        (Wrote (s.metaPath id) (performed (s.deleteActs u.tree id) faults) →
          new.head? = some 0) ∧
        (¬ Wrote (s.metaPath id) (performed (s.deleteActs u.tree id) faults) → new = bytes) := by
  have hne : s.metaPath id ≠ [] := by simp [metaPath]
  have htree : (u.deleted id faults).tree =
      effects (performed (s.deleteActs u.tree id) faults) u.tree := (eval_delete hs faults).1
  have hask : Zeroing (s.metaPath id) [.ask] := zeroing_of_ne (by simp)
  have hzero : Zeroing (s.metaPath id) (s.deleteActs u.tree id) :=
    hask.append (Shredder.zeroing_acts _ _ _ _)
  have hdeeper : (s.deleteActs u.tree id).Pairwise Deeper :=
    .cons (by rintro _ _ p q ⟨⟩) (Shredder.pairwise_acts _ _ _)
  have hunlink := unlink_mem_deleteActs hs hfile
  -- the directory is there as long as the file is
  have hdir : .unlink (s.profileDir id) ∉ performed (s.deleteActs u.tree id) faults := by
    refine fun hmem => hkeep (unlink_performed hdeeper hunlink ?_ hmem)
    simp [metaPath]
  refine ⟨hs.congr fun q hq => ?_, ?_⟩
  · by_cases he : q = s.profileDir id
    · rw [he, htree, node_effects_dir (Tree.node_of_straight hs) hdir, Tree.node_of_straight hs]
    · exact (elsewhere_deleted u id faults).node q fun hle =>
        he (hq.eq_of_length_le hle.length_le)
  · rw [htree]
    exact node_zeroing hne hfile (hzero.performed faults) hkeep

/-- The metadata begin to be overwritten, and are not removed before the first fault. -/
def StopsBetween (s : FileProfileStore) (t : Tree) (id : ProfileId)
    (faults : List (Option Fault)) : Prop :=
  Wrote (s.metaPath id) (performed (s.deleteActs t id) faults) ∧
    .unlink (s.metaPath id) ∉ performed (s.deleteActs t id) faults

/-- `get` of the other profiles and the listing tell what they told; the profile itself is as it
was, up to its size and lock, or is not found. -/
structure Intact (Time : Type) [Chrono Time] [Ord Time] (s : FileProfileStore) (id : ProfileId)
    (t t' : Tree) : Prop where
  others : ∀ other, other ≠ id →
    (eval (s.loadRefreshed other : Run Error (Ipc.Profile Time)) ⟨t', []⟩).1 =
      (eval (s.loadRefreshed other) ⟨t, []⟩).1
  listed : s.ListsOthers Time id t t'
  own : ∀ profile : Ipc.Profile Time, s.loaded t id = some profile →
    (∃ left : Ipc.Profile Time, s.loaded t' id = some left ∧
      left = { profile with storage := left.storage, locked := left.locked }) ∨
    (eval (s.loadRefreshed id : Run Error (Ipc.Profile Time)) ⟨t', []⟩).1 =
      .error (.notFound ("profile " ++ id.uuid.display))

/-- A delete that fails leaves the store intact. -/
def FailsIntact (Time : Type) [Chrono Time] [Ord Time] (s : FileProfileStore) (t : Tree)
    (id : ProfileId) (faults : List (Option Fault)) : Prop :=
  ∀ e, (eval (s.delete id) ⟨t, faults⟩).1 = .error e →
    s.Intact Time id t (eval (s.delete id) ⟨t, faults⟩).2.tree

/-- A directory of a profile is an entry of the root. -/
theorem mem_rootEntries (hs : t.Straight [] (s.profileDir id)) :
    (id.uuid.display, .dir) ∈ s.rootEntries t := by
  obtain ⟨hroot, hname, hdir, -⟩ := Tree.straight_append.mp hs
  have hok : t.entriesAt s.root = .ok (t.children s.root) := Tree.entriesAt_eq_ok.mpr
    ⟨s.root, Tree.resolve_straight hroot, Tree.node_of_straight hroot, rfl⟩
  rw [(rootEntries_of_ok hok).1]
  exact Tree.mem_children.mpr ⟨hname, hdir⟩

theorem not_missing_of_file (u : s.Linkless) (hs : u.tree.Straight [] (s.profileDir id))
    {n : Node} (hn : u.tree.node (s.metaPath id) = some n) : ¬ s.Missing u.tree id := by
  intro hmissing
  have hnone := Tree.node_of_bytesAt hs (by decide) (u.no_link id _ List.mem_cons_self) hmissing
  rw [show s.profileDir id ++ ["profile.json"] = s.metaPath id from rfl, hn] at hnone
  cases hnone

/-- A profile that is there and cannot be loaded fails the listing. -/
theorem list_failed [Ord Time] (u : s.Linkless) (hs : u.tree.Straight [] (s.profileDir id))
    (hmissing : ¬ s.Missing u.tree id) (hload : ¬ s.Loadable Time u.tree id)
    (out : List (Ipc.Profile Time)) : (eval s.list ⟨u.tree, []⟩).1 ≠ .ok out := by
  intro hout
  rcases all_of_list_ok u hout _ (mem_rootEntries hs) id (entryId_display id) with h | h
  · exact hmissing h
  · exact hload h

/-- The profile itself is gone, or was not read before, or is as it was. -/
theorem own_deleted (u : s.Linkless)
    (h : ¬ (s.Loadable Time u.tree id ∧ s.StopsBetween u.tree id faults)) :
    s.Missing (u.deleted id faults).tree id ∨
      (u.tree.Straight [] (s.profileDir id) ∧ ¬ s.Missing u.tree id ∧
        ¬ s.Loadable Time u.tree id) ∨
      s.storedMeta (u.deleted id faults).tree id =
        (s.storedMeta u.tree id : Option (Ipc.Profile Time)) ∧
        s.Loadable Time (u.deleted id faults).tree id := by
  have hne : s.metaPath id ≠ [] := by simp [metaPath]
  by_cases hs : u.tree.Straight [] (s.profileDir id)
  · have htree : (u.deleted id faults).tree =
        effects (performed (s.deleteActs u.tree id) faults) u.tree := (eval_delete hs faults).1
    cases hn : u.tree.node (s.metaPath id) with
    | none =>
      refine .inl ((u.deleted id faults).missing ?_)
      rw [htree, node_effects_none hn]
    | some n =>
      by_cases hload : s.Loadable Time u.tree id
      · obtain ⟨-, bytes, profile, hfile, hprofile⟩ := u.file_of_loadable hload
        by_cases hgone : .unlink (s.metaPath id) ∈ performed (s.deleteActs u.tree id) faults
        · refine .inl ((u.deleted id faults).missing ?_)
          rw [htree, node_effects_gone hne hgone]
        · -- no byte of the file has been overwritten
          obtain ⟨hs', new, hnew, -, hsame⟩ := node_deleted u hs hfile hgone
          rw [hsame fun hwrote => h ⟨hload, hwrote, hgone⟩] at hnew
          have hstored : ∀ v : s.Linkless, v.tree.Straight [] (s.profileDir id) →
              v.tree.node (s.metaPath id) = some (.file bytes) →
              s.storedMeta v.tree id = some profile := by
            intro v hv hnode
            have hbytes : v.tree.bytesAt (s.metaPath id) = .ok bytes :=
              (Tree.bytesAt_eq_ok (v.plain id) (by decide)
                (v.no_link id _ List.mem_cons_self)).mpr ⟨hv, hnode⟩
            rw [storedMeta, hbytes]
            exact hprofile
          have hstored' := hstored (u.deleted id faults) hs' hnew
          exact .inr (.inr ⟨hstored'.trans (hstored u hs hfile).symm, ⟨profile, hstored'⟩,
            (u.deleted id faults).lockTold id⟩)
      · exact .inr (.inl ⟨hs, not_missing_of_file u hs hn, hload⟩)
  · have htree : (u.deleted id faults).tree = u.tree := eval_delete_missing (u.plain id) hs faults
    refine .inl ?_
    rw [htree]
    exact Tree.bytesAt_missing (u.plain id) hs

/-- A delete that stops between fails, and leaves metadata that cannot be read. -/
theorem stopped_delete (u : s.Linkless) (hload : s.Loadable Time u.tree id)
    (hstops : s.StopsBetween u.tree id faults) :
    ∃ e, (eval (s.delete id) ⟨u.tree, faults⟩).1 = .error e ∧
      ¬ s.Missing (u.deleted id faults).tree id ∧
      ¬ s.Loadable Time (u.deleted id faults).tree id := by
  obtain ⟨hwrote, hkeep⟩ := hstops
  obtain ⟨hs, bytes, profile, hfile, -⟩ := u.file_of_loadable hload
  obtain ⟨hs', new, hnew, hzero, -⟩ := node_deleted u hs hfile hkeep
  have hunread : ¬ s.Loadable Time (u.deleted id faults).tree id := by
    intro hload'
    obtain ⟨-, bytes', profile', hfile', hprofile'⟩ :=
      (u.deleted id faults).file_of_loadable hload'
    rw [hnew] at hfile'
    cases hfile'
    rw [fromSlice_zero (hzero hwrote)] at hprofile'
    cases hprofile'
  cases hresult : (eval (s.delete id) ⟨u.tree, faults⟩).1 with
  | error e => exact ⟨e, rfl, not_missing_of_file (u.deleted id faults) hs' hnew, hunread⟩
  | ok r =>
    -- a delete that succeeds has removed them
    rw [(eval_delete hs faults).2 hresult] at hkeep
    exact absurd (unlink_mem_deleteActs hs hfile) hkeep

theorem not_failsIntact [Ord Time] (u : s.Linkless) (hload : s.Loadable Time u.tree id)
    (hstops : s.StopsBetween u.tree id faults) : ¬ s.FailsIntact Time u.tree id faults := by
  intro hintact
  obtain ⟨e, he, hmissing, hunread⟩ := stopped_delete u hload hstops
  obtain ⟨profile, hprofile⟩ := Option.isSome_iff_exists.mp (loaded_isSome.mpr hload)
  have hleft : s.Intact Time id u.tree (u.deleted id faults).tree := hintact e he
  rcases hleft.own profile hprofile with ⟨left, hleft, -⟩ | hnone
  · exact hunread (loaded_isSome.mp (by rw [hleft]; rfl))
  · obtain ⟨e', he', hother⟩ := eval_loadRefreshed_unread hmissing hunread
    rw [he'] at hnone
    exact hother _ (Except.error.inj hnone)

/-- Then no profile is listed. -/
theorem unlisted_of_stops [Ord Time] (u : s.Linkless) (hload : s.Loadable Time u.tree id)
    (hstops : s.StopsBetween u.tree id faults) (out : List (Ipc.Profile Time)) :
    (eval s.list ⟨(eval (s.delete id) ⟨u.tree, faults⟩).2.tree, []⟩).1 ≠ .ok out := by
  obtain ⟨e, he, hmissing, hunread⟩ := stopped_delete u hload hstops
  obtain ⟨hs, bytes, -, hfile, -⟩ := u.file_of_loadable hload
  obtain ⟨hs', -⟩ := node_deleted u hs hfile hstops.2
  exact list_failed (u.deleted id faults) hs' hmissing hunread out

theorem loaded_stored (u : s.Linkless) {profile : Ipc.Profile Time}
    (h : s.storedMeta u.tree id = some profile) :
    s.loaded u.tree id = some (s.refreshed u.tree id profile) := by
  rw [loaded, eval_loadRefreshed_stored h (u.lockTold id)]
  rfl

/-- A failed delete leaves the other profiles and the listing as they were, and the profile itself
as it was or not found, exactly if it does not stop between the first overwritten byte of metadata
that could be read and their removal. -/
theorem failed_delete_iff [Ord Time] (u : s.Linkless) (id : ProfileId)
    (faults : List (Option Fault)) : s.FailsIntact Time u.tree id faults ↔
      ¬ (s.Loadable Time u.tree id ∧ s.StopsBetween u.tree id faults) := by
  constructor
  · rintro hintact ⟨hload, hstops⟩
    exact not_failsIntact u hload hstops hintact
  · intro h e _
    show s.Intact Time id u.tree (u.deleted id faults).tree
    have helse := elsewhere_deleted u id faults
    have hown := own_deleted u h
    refine ⟨fun other hne => eval_load_other helse hne, ?_, fun profile hprofile => ?_⟩
    · rcases hown with hmissing | ⟨hs, hmissing, hload⟩ | ⟨-, hload⟩
      · exact listsOthers_of helse (.inl hmissing)
      · exact fun out hout => absurd hout (list_failed u hs hmissing hload out)
      · exact listsOthers_of helse (.inr hload)
    · rcases hown with hmissing | ⟨-, -, hload⟩ | ⟨hsame, hload⟩
      · exact .inr (by rw [eval_loadRefreshed_missing hmissing])
      · exact absurd (loaded_isSome.mp (by rw [hprofile]; rfl)) hload
      · obtain ⟨⟨stored, hstored⟩, -⟩ := hload
        rw [loaded_stored u (hsame.symm.trans hstored)] at hprofile
        obtain rfl := Option.some.inj hprofile
        exact .inl ⟨_, loaded_stored (u.deleted id faults) hstored, rfl⟩

end Delete

end Linkless

/-! ### A sync that fails -/

/-- A store that shreds as a new one does. -/
def overwriting : FileProfileStore :=
  ⟨["profiles"], .overwrite (.new 1), fun _ => "expected value"⟩

def overwriting.two : overwriting.Linkless where
  tree := twoProfiles
  plain := (pair (workProfile ⟨7⟩)).plain
  no_link id name _ target := by
    have hne : overwriting.profileDir id ++ [name] ≠ [] := by simp
    rw [show twoProfiles = (pair (workProfile ⟨7⟩)).tree from rfl, pair, node_stock, node_stock]
    split
    · nofun
    split
    · nofun
    split
    · nofun
    split
    · nofun
    · rw [show atTop.empty.tree = ∅ from rfl, FileTree.Tree.node, if_neg hne]
      nofun

/-- The flush fails after the metadata are overwritten. -/
def flushFails : List (Option Fault) :=
  List.replicate 8 none ++ [some ⟨"Input/output error (os error 5)", 0⟩]

theorem filesBelow_two : OverwriteShredder.filesBelow twoProfiles (overwriting.profileDir ⟨7⟩) =
    [["profile.json"]] := rfl

theorem walkAsks_two : OverwriteShredder.walkAsks twoProfiles (overwriting.profileDir ⟨7⟩)
    (twoProfiles.keys.length + 1) [[]] = 2 := rfl

theorem toVec_ne_nil (profile : Ipc.Profile Ipc.Stamp) : toVec profile ≠ [] := by
  intro hnil
  have hread := fromSlice_toVec profile
  rw [hnil] at hread
  cases hread

/-- A file that is not empty is opened and rewound, and zeros are written. -/
theorem fileActs_new (q : Path) {len : ℕ} (hlen : len ≠ 0) : ∃ offset bytes rest, bytes ≠ [] ∧
    (OverwriteShredder.new 1).fileActs q len =
      [.ask, .ask, .ask, .write q offset bytes] ++ rest := by
  have hbytes : List.replicate (min len OverwriteShredder.chunk) (0 : UInt8) ≠ [] := by
    have hchunk : 0 < OverwriteShredder.chunk := by decide
    rw [Ne, List.replicate_eq_nil_iff]
    omega
  have hpasses : (OverwriteShredder.new 1).passes.toNat = 0 + 1 := rfl
  have hwrites := OverwriteShredder.zeroWrites.eq_def q len len
  rw [if_neg hlen] at hwrites
  have hacts : (OverwriteShredder.new 1).fileActs q len = .ask :: .ask :: .ask ::
      (OverwriteShredder.zeroWrites q len len ++ [.ask, .ask]) := by
    rw [OverwriteShredder.fileActs, if_neg hlen, hpasses]
    rfl
  rw [hwrites] at hacts
  exact ⟨_, _, _, hbytes, hacts⟩

/-- The metadata are the first file that is overwritten. -/
theorem deleteActs_two : ∃ offset bytes rest, bytes ≠ [] ∧
    overwriting.deleteActs twoProfiles ⟨7⟩ =
      (List.replicate 7 .ask ++ [.write (overwriting.metaPath ⟨7⟩) offset bytes]) ++ rest := by
  have hlen : (toVec (workProfile ⟨7⟩)).length ≠ 0 := by
    rw [Ne, List.length_eq_zero_iff]
    exact toVec_ne_nil _
  obtain ⟨offset, bytes, rest, hne, hacts⟩ := fileActs_new (overwriting.metaPath ⟨7⟩) hlen
  have hfiles : (OverwriteShredder.new 1).filesActs twoProfiles (overwriting.profileDir ⟨7⟩)
      (OverwriteShredder.filesBelow twoProfiles (overwriting.profileDir ⟨7⟩)) =
        (OverwriteShredder.new 1).fileActs (overwriting.metaPath ⟨7⟩)
          (toVec (workProfile ⟨7⟩)).length := by
    rw [filesBelow_two, OverwriteShredder.filesActs, List.flatMap_singleton]
    rfl
  have hwrites : overwriting.shredder.writes twoProfiles (overwriting.profileDir ⟨7⟩) =
      .ask :: (List.replicate 2 .ask ++
        ([.ask, .ask, .ask, .write (overwriting.metaPath ⟨7⟩) offset bytes] ++ rest)) := by
    show OverwriteShredder.overwriteActs _ _ _ = _
    rw [OverwriteShredder.overwriteActs, walkAsks_two, hfiles, hacts]
  have hall : overwriting.deleteActs twoProfiles ⟨7⟩ = .ask ::
      (overwriting.shredder.writes twoProfiles (overwriting.profileDir ⟨7⟩) ++ _) := rfl
  rw [hall, hwrites]
  exact ⟨offset, bytes, _, hne, rfl⟩

theorem stopsBetween_two : overwriting.StopsBetween twoProfiles ⟨7⟩ flushFails := by
  obtain ⟨offset, bytes, rest, hne, hacts⟩ := deleteActs_two
  have hdone : performed (overwriting.deleteActs twoProfiles ⟨7⟩) flushFails =
      (List.replicate 7 .ask ++ [.write (overwriting.metaPath ⟨7⟩) offset bytes]) ++
        performed rest [some ⟨"Input/output error (os error 5)", 0⟩] := by
    rw [hacts]
    exact performed_append _ rest _
  rw [StopsBetween, hdone]
  refine ⟨⟨offset, bytes, hne, by simp⟩, fun hmem => ?_⟩
  rcases List.mem_append.mp hmem with hmem | hmem
  · simp at hmem
  · cases rest with
    | nil => cases hmem
    | cons a rest => exact absurd (List.mem_singleton.mp hmem).symm (a.trim_ne_unlink 0)

theorem loadable_two : overwriting.Loadable Ipc.Stamp twoProfiles ⟨7⟩ := by
  have hlocked : (twoProfiles.resolve (atTop.lockPath ⟨7⟩)).bind twoProfiles.nodeAt =
      .error .notFound := rfl
  exact loadable_of_node ⟨by decide, rfl, display_ne_parent _, rfl, trivial⟩ rfl hlocked

/-- The profile whose delete failed is corrupt afterwards, and no profile is listed. -/
theorem failed_delete_unlisted :
    (∃ e, (eval (overwriting.delete ⟨7⟩) ⟨overwriting.two.tree, flushFails⟩).1 = .error e) ∧
    (∀ out : List (Ipc.Profile Ipc.Stamp), (eval overwriting.list ⟨(eval (overwriting.delete ⟨7⟩)
      ⟨overwriting.two.tree, flushFails⟩).2.tree, []⟩).1 ≠ .ok out) ∧
    ¬ overwriting.FailsIntact Ipc.Stamp overwriting.two.tree ⟨7⟩ flushFails := by
  obtain ⟨e, he, -⟩ := stopped_delete overwriting.two loadable_two stopsBetween_two
  exact ⟨⟨e, he⟩, unlisted_of_stops overwriting.two loadable_two stopsBetween_two,
    not_failsIntact overwriting.two loadable_two stopsBetween_two⟩

end FileProfileStore

end Aegis.Store
