import Aegis.Lib.FilePlan
import Aegis.Lib.FileWalk
import Aegis.Store.Shred

/-! The operations that shredding performs, and what it has done when it succeeds. -/
namespace Aegis.Store.OverwriteShredder
open Text FileTree FileTree.Run

variable {s : OverwriteShredder} {t t' : Tree} {p q a top : Path} {bytes : Bytes}

/-! ### The operations -/

def zeroWrites (q : Path) (len remaining : ℕ) : List Act :=
  if remaining = 0 then []
  else .write q (len - remaining) (List.replicate (min remaining chunk) 0) ::
    zeroWrites q len (remaining - min remaining chunk)
termination_by remaining
decreasing_by
  have hchunk : 0 < chunk := by decide
  omega

def passActs (q : Path) (len : ℕ) : ℕ → List Act
  | 0 => []
  | passes + 1 => .ask :: (zeroWrites q len len ++ .ask :: .ask :: passActs q len passes)

/-- The operations on a file of `len` bytes at `q`. -/
def fileActs (s : OverwriteShredder) (q : Path) (len : ℕ) : List Act :=
  .ask :: if len = 0 then [] else .ask :: passActs q len s.passes.toNat

/-- The operations on the files below `top`. -/
def filesActs (s : OverwriteShredder) (t : Tree) (top : Path) (files : List (List FileName)) :
    List Act :=
  files.flatMap fun f => s.fileActs (top ++ f) ((t.node (top ++ f)).getD .special).len

/-- How many operations a walk takes. -/
def walkAsks (t : Tree) (top : Path) : ℕ → List (List FileName) → ℕ
  | _, [] => 0
  | 0, _ :: _ => 0
  | turns + 1, d :: stack =>
    1 + (t.children (top ++ d)).length +
      walkAsks t top turns (((t.subdirs (top ++ d)).map fun name => d ++ [name]).reverse ++ stack)

/-- The files of the directory at `top`, in the order of the walk. -/
def filesBelow (t : Tree) (top : Path) : List (List FileName) :=
  t.walk top (t.keys.length + 1) [[]]

/-- The operations up to the removal. -/
def overwriteActs (s : OverwriteShredder) (t : Tree) (top : Path) : List Act :=
  .ask :: (List.replicate (walkAsks t top (t.keys.length + 1) [[]]) .ask ++
    s.filesActs t top (filesBelow t top))

def removeActs (t : Tree) (top : Path) : List Act := .ask :: (t.belowRev top).map .unlink

/-- The operations that shred the directory at `top`. -/
def shredActs (s : OverwriteShredder) (t : Tree) (top : Path) : List Act :=
  s.overwriteActs t top ++ removeActs (effects (s.overwriteActs t top) t) top

/-! ### They are the ones performed -/

theorem follows_zeroRest (q : Path) (len remaining : ℕ) (t : Tree) :
    Follows (zeroRest q len remaining) t (zeroWrites q len remaining) () := by
  induction remaining using Nat.strong_induction_on generalizing t with
  | _ remaining ih =>
    unfold zeroRest zeroWrites
    split
    · exact .pure () t
    · rename_i hpos
      have hchunk : 0 < chunk := by decide
      exact (Follows.writeAll q _ _ t).bind (ih _ (by omega) _)

theorem follows_zeroPasses (q : Path) (len passes : ℕ) (t : Tree) :
    Follows (zeroPasses q len passes) t (passActs q len passes) () := by
  induction passes generalizing t with
  | zero => exact .pure () t
  | succ passes ih =>
    have hask : ∀ t, Follows checkpoint t [.ask] () := fun t => .query rfl
    exact (hask t).bind ((follows_zeroRest q len len t).bind ((hask _).bind ((hask _).bind (ih _))))

theorem follows_overwriteFile (hp : t.resolve p = .ok q) (hq : t.node q = some (.file bytes)) :
    Follows (s.overwriteFile p) t (s.fileActs q bytes.length) () := by
  have hmeta : Follows (metadata p) t [.ask] (.file bytes) := by
    refine .query ?_
    simp only [hp, Except.bind, Tree.nodeAt, hq]
  have hopen : Follows (openWrite p) t [.ask] q := by
    refine .query ?_
    simp only [Tree.existing, hp, Except.bind, hq]
  have hrest : Follows (if bytes.length = 0 then pure ()
      else openWrite p >>= fun q => zeroPasses q bytes.length s.passes.toNat) t
      (if bytes.length = 0 then [] else .ask :: passActs q bytes.length s.passes.toNat) () := by
    split
    · exact .pure () t
    · exact hopen.bind (follows_zeroPasses q bytes.length s.passes.toNat t)
  exact hmeta.attempt (fun _ => rfl) hrest

/-! ### What they do to the files -/

theorem effects_zeroWrites {len remaining : ℕ} (hne : q ≠ [])
    (hq : t.node q = some (.file bytes)) (hlen : bytes.length = len) (hle : remaining ≤ len) :
    (effects (zeroWrites q len remaining) t).node q =
        some (.file (bytes.take (len - remaining) ++ List.replicate remaining 0)) ∧
      ∀ p, p ≠ q → (effects (zeroWrites q len remaining) t).node p = t.node p := by
  induction remaining using Nat.strong_induction_on generalizing t bytes with
  | _ remaining ih =>
    unfold zeroWrites
    split
    · rename_i hzero
      subst hzero
      refine ⟨?_, fun _ _ => rfl⟩
      rw [effects_nil, hq, Nat.sub_zero, ← hlen, List.take_length, List.replicate_zero,
        List.append_nil]
    · rename_i hpos
      have hchunk : 0 < chunk := by decide
      generalize hn : min remaining chunk = n at ih ⊢
      have hsplice : t.spliceAt q (len - remaining) (List.replicate n 0) = t.put q (.file
          (Tree.splice bytes (len - remaining) (List.replicate n 0))) := by
        rw [Tree.spliceAt, hq]
      have hlength : (Tree.splice bytes (len - remaining) (List.replicate n 0)).length = len := by
        rw [Tree.length_splice, hlen]
        rw [List.length_replicate]
        omega
      -- the chunk is zeroed, then the rest
      obtain ⟨hfile, hothers⟩ := ih (remaining - n) (by omega)
        (Tree.node_put_self hne) hlength (by omega)
      rw [effects_cons, Act.effect, hsplice]
      refine ⟨hfile.trans ?_, fun p hp => (hothers p hp).trans (Tree.node_put_of_ne hp)⟩
      have htake : (Tree.splice bytes (len - remaining) (List.replicate n 0)).take
          (len - (remaining - n)) = bytes.take (len - remaining) ++ List.replicate n 0 := by
        refine List.take_left' ?_
        rw [List.length_append, List.length_take, List.length_replicate]
        omega
      have hzeros : List.replicate n (0 : UInt8) ++ List.replicate (remaining - n) 0 =
          List.replicate remaining 0 := by
        rw [List.replicate_append_replicate]
        congr 1
        omega
      rw [htake, List.append_assoc, hzeros]

/-- What a file holds after its passes. -/
def zeroed (s : OverwriteShredder) (bytes : Bytes) : Bytes :=
  if s.passes.toNat = 0 then bytes else List.replicate bytes.length 0

@[simp] theorem length_zeroed (s : OverwriteShredder) (bytes : Bytes) :
    (s.zeroed bytes).length = bytes.length := by
  unfold zeroed
  split
  · rfl
  · exact List.length_replicate

theorem zeroed_zeroed (s : OverwriteShredder) (bytes : Bytes) :
    s.zeroed (s.zeroed bytes) = s.zeroed bytes := by
  unfold zeroed
  split
  · rfl
  · rw [List.length_replicate]

theorem effects_passActs {len passes : ℕ} (hne : q ≠ []) (hq : t.node q = some (.file bytes))
    (hlen : bytes.length = len) : (effects (passActs q len passes) t).node q =
        some (.file (if passes = 0 then bytes else List.replicate len 0)) ∧
      ∀ p, p ≠ q → (effects (passActs q len passes) t).node p = t.node p := by
  induction passes generalizing t bytes with
  | zero => exact ⟨hq, fun _ _ => rfl⟩
  | succ passes ih =>
    obtain ⟨hfile, hothers⟩ := effects_zeroWrites hne hq hlen (Nat.le_refl len)
    rw [Nat.sub_self, List.take_zero, List.nil_append] at hfile
    obtain ⟨hlast, hrest⟩ := ih hfile List.length_replicate
    have heffects : effects (passActs q len (passes + 1)) t =
        effects (passActs q len passes) (effects (zeroWrites q len len) t) := by
      rw [passActs, effects_cons, effects_append]
      rfl
    rw [heffects, if_neg (Nat.succ_ne_zero passes)]
    rw [ite_self] at hlast
    exact ⟨hlast, fun p hp => (hrest p hp).trans (hothers p hp)⟩

theorem effects_fileActs (hne : q ≠ []) (hq : t.node q = some (.file bytes)) :
    (effects (s.fileActs q bytes.length) t).node q = some (.file (s.zeroed bytes)) ∧
      ∀ p, p ≠ q → (effects (s.fileActs q bytes.length) t).node p = t.node p := by
  unfold fileActs zeroed
  rw [effects_cons, Act.effect]
  split
  · rename_i hempty
    rw [List.length_eq_zero_iff.mp hempty] at hq ⊢
    exact ⟨by rw [effects_nil, hq, List.length_nil, List.replicate_zero, ite_self],
      fun _ _ => rfl⟩
  · rw [effects_cons, Act.effect]
    exact effects_passActs hne hq rfl

theorem overwritten_fileActs (hne : q ≠ []) (hq : t.node q = some (.file bytes)) :
    t.Overwritten (effects (s.fileActs q bytes.length) t) := by
  obtain ⟨hfile, hothers⟩ := effects_fileActs (s := s) hne hq
  intro p
  by_cases hp : p = q
  · subst hp
    exact .inr ⟨bytes, _, (s.length_zeroed bytes).symm, hq, hfile⟩
  · exact .inl (hothers p hp)

/-- A file of the walk, at its length. -/
theorem fileActs_len {f : List FileName} (h : t.Overwritten t')
    (hf : t.node (top ++ f) = some (.file bytes)) :
    ∃ new : Bytes, t'.node (top ++ f) = some (.file new) ∧
      s.fileActs (top ++ f) ((t.node (top ++ f)).getD .special).len =
        s.fileActs (top ++ f) new.length := by
  obtain ⟨new, hlength, hnew⟩ := h.file hf
  refine ⟨new, hnew, ?_⟩
  rw [hf, hlength]
  rfl

theorem effects_filesActs {files : List (List FileName)} (h : t.Overwritten t')
    (hfiles : ∀ f ∈ files, top ++ f ≠ [] ∧ ∃ bytes, t.node (top ++ f) = some (.file bytes)) :
    t.Overwritten (effects (s.filesActs t top files) t') ∧
    (∀ p, (∀ f ∈ files, p ≠ top ++ f) →
      (effects (s.filesActs t top files) t').node p = t'.node p) ∧
    ∀ f ∈ files, ∀ bytes, t'.node (top ++ f) = some (.file bytes) →
      (effects (s.filesActs t top files) t').node (top ++ f) = some (.file (s.zeroed bytes)) := by
  induction files generalizing t' with
  | nil => exact ⟨h, fun _ _ => rfl, fun f hf => absurd hf List.not_mem_nil⟩
  | cons f files ih =>
    obtain ⟨hne, bytes, hbytes⟩ := hfiles f List.mem_cons_self
    obtain ⟨new, hnew, hacts⟩ := fileActs_len (s := s) h hbytes
    obtain ⟨hfile, hothers⟩ := effects_fileActs (s := s) hne hnew
    have hfirst := trans_of Tree.Overwritten h (overwritten_fileActs (s := s) hne hnew)
    obtain ⟨hover, hbeside, hzeroed⟩ := ih hfirst fun g hg => hfiles g (List.mem_cons_of_mem _ hg)
    have heffects : effects (s.filesActs t top (f :: files)) t' =
        effects (s.filesActs t top files) (effects (s.fileActs (top ++ f) new.length) t') := by
      rw [filesActs, List.flatMap_cons, effects_append, hacts]
      rfl
    rw [heffects]
    refine ⟨hover, fun p hp => ?_, fun g hg old hold => ?_⟩
    · rw [hbeside p fun g hg => hp g (List.mem_cons_of_mem _ hg)]
      exact hothers p (hp f List.mem_cons_self)
    · -- a file may come again: its zeros stay
      by_cases hsame : top ++ g = top ++ f
      · rw [hsame] at hold ⊢
        rw [hnew] at hold
        cases hold
        by_cases hagain : ∃ g ∈ files, top ++ f = top ++ g
        · obtain ⟨g, hg, heq⟩ := hagain
          have hagain := hzeroed g hg (s.zeroed new) (by rw [← heq]; exact hfile)
          rwa [← heq, zeroed_zeroed] at hagain
        · rw [hbeside _ fun g hg heq => hagain ⟨g, hg, heq⟩]
          exact hfile
      · rcases List.mem_cons.mp hg with rfl | hg
        · exact absurd rfl hsame
        · exact hzeroed g hg old ((hothers _ hsame).trans hold)

/-! ### The walk and the files -/

theorem follows_overwriteFiles {files : List (List FileName)} (h : t.Overwritten t')
    (hfiles : ∀ f ∈ files, top ++ f ≠ [] ∧ t.resolve (a ++ f) = .ok (top ++ f) ∧
      ∃ bytes, t.node (top ++ f) = some (.file bytes)) :
    Follows (s.overwriteFiles (files.map (a ++ ·))) t' (s.filesActs t top files) () := by
  induction files generalizing t' with
  | nil => exact .pure () t'
  | cons f files ih =>
    obtain ⟨hne, hresolve, bytes, hbytes⟩ := hfiles f List.mem_cons_self
    obtain ⟨new, hnew, hacts⟩ := fileActs_len (s := s) h hbytes
    have hresolve' : t'.resolve (a ++ f) = .ok (top ++ f) := (h.resolve _).trans hresolve
    have hfirst := trans_of Tree.Overwritten h (overwritten_fileActs (s := s) hne hnew)
    rw [filesActs, List.flatMap_cons, hacts]
    exact (follows_overwriteFile hresolve' hnew).bind
      (ih hfirst fun g hg => hfiles g (List.mem_cons_of_mem _ hg))

theorem follows_sortEntries (es : List (FileName × Node)) (stack files : List Path) (t : Tree) :
    Follows (sortEntries p es stack files) t (List.replicate es.length .ask)
      ((((es.filter (·.2.isDir)).map (·.1)).map fun name => p ++ [name]).reverse ++ stack,
        files ++ ((es.filter (·.2.isFile)).map (·.1)).map fun name => p ++ [name]) := by
  induction es generalizing stack files with
  | nil =>
    have hnil : Follows (sortEntries p [] stack files) t [] (stack, files) := .pure _ t
    simpa using hnil
  | cons e es ih =>
    obtain ⟨name, n⟩ := e
    have hask : Follows checkpoint t [.ask] () := .query rfl
    cases n with
    | dir =>
      have hrest : Follows (sortEntries p ((name, .dir) :: es) stack files) t _ _ :=
        hask.bind (ih ((p ++ [name]) :: stack) files)
      simpa [List.replicate_succ, Node.isDir, Node.isFile] using hrest
    | file bytes =>
      have hrest : Follows (sortEntries p ((name, .file bytes) :: es) stack files) t _ _ :=
        hask.bind (ih stack (files ++ [p ++ [name]]))
      simpa [List.replicate_succ, Node.isDir, Node.isFile] using hrest
    | link target =>
      have hrest : Follows (sortEntries p ((name, .link target) :: es) stack files) t _ _ :=
        hask.bind (ih stack files)
      simpa [List.replicate_succ, Node.isDir, Node.isFile] using hrest
    | special =>
      have hrest : Follows (sortEntries p ((name, .special) :: es) stack files) t _ _ :=
        hask.bind (ih stack files)
      simpa [List.replicate_succ, Node.isDir, Node.isFile] using hrest

theorem follows_findFiles {turns : ℕ} {stack : List (List FileName)} (ha : t.resolve a = .ok top)
    (htop : t.node top = some .dir) (hstack : ∀ d ∈ stack, t.Straight top d)
    (hturns : t.stackWeight top stack ≤ turns) (files : List Path) :
    Follows (findFiles turns (stack.map (a ++ ·)) files) t
      (List.replicate (walkAsks t top turns stack) .ask)
      (files ++ (t.walk top turns stack).map (a ++ ·)) := by
  induction turns generalizing stack files with
  | zero =>
    cases stack with
    | nil =>
      have hnil : Follows (findFiles 0 [] files) t [] files := .pure _ t
      simpa [walkAsks, Tree.walk] using hnil
    | cons d stack =>
      have hpos := Tree.stackWeight_pos htop (hstack d List.mem_cons_self) stack
      omega
  | succ turns ih =>
    cases stack with
    | nil =>
      have hnil : Follows (findFiles (turns + 1) [] files) t [] files := .pure _ t
      simpa [walkAsks, Tree.walk] using hnil
    | cons d stack =>
      have hd := hstack d List.mem_cons_self
      have hdir := Tree.node_straight htop hd
      have hresolve := Tree.resolve_below ha htop hd
      have hpushed := Tree.straight_pushed hd fun d hd => hstack d (List.mem_cons_of_mem _ hd)
      have hless := Tree.stackWeight_lt (Tree.mem_paths htop hd) stack
      have hread : Follows (readDir (a ++ d)) t [.ask] (t.children (top ++ d)) :=
        .query (Tree.entriesAt_eq_ok.mpr ⟨_, hresolve, hdir, rfl⟩)
      have hsort := follows_sortEntries (t.children (top ++ d)) (stack.map (a ++ ·)) files t
        (p := a ++ d)
      have hstacks : ((((t.children (top ++ d)).filter (·.2.isDir)).map (·.1)).map fun name =>
          a ++ d ++ [name]).reverse ++ stack.map (a ++ ·) =
            (((t.subdirs (top ++ d)).map fun name => d ++ [name]).reverse ++ stack).map
              (a ++ ·) := by
        simp [Tree.subdirs, List.map_reverse, Function.comp_def]
      rw [hstacks] at hsort
      have hrest := ih hpushed (by omega) (files ++
        (((t.children (top ++ d)).filter (·.2.isFile)).map (·.1)).map fun name => a ++ d ++ [name])
      have hasks : List.replicate (walkAsks t top (turns + 1) (d :: stack)) Act.ask = [.ask] ++
          (List.replicate (t.children (top ++ d)).length .ask ++
            List.replicate (walkAsks t top turns
              (((t.subdirs (top ++ d)).map fun name => d ++ [name]).reverse ++ stack)) .ask) := by
        rw [walkAsks, List.replicate_append_replicate, List.singleton_append,
          ← List.replicate_succ]
        congr 1
        omega
      have hfound : files ++ (t.walk top (turns + 1) (d :: stack)).map (a ++ ·) = files ++
          (((t.children (top ++ d)).filter (·.2.isFile)).map (·.1)).map
            (fun name => a ++ d ++ [name]) ++ (t.walk top turns
              (((t.subdirs (top ++ d)).map fun name => d ++ [name]).reverse ++ stack)).map
                (a ++ ·) := by
        rw [Tree.walk, List.map_append, List.append_assoc]
        simp [Tree.fileNames, Function.comp_def]
      rw [hasks, hfound]
      exact hread.bind (hsort.bind (by rw [effects_replicate_ask]; exact hrest))

/-- A path that names a directory itself, and not by a link. -/
structure NamesDir (t : Tree) (a top : Path) : Prop where
  located : t.locate a = .ok top
  resolved : t.resolve a = .ok top
  dir : t.node top = some .dir

theorem stackWeight_top (t : Tree) (top : Path) : t.stackWeight top [[]] ≤ t.keys.length + 1 := by
  have hle : t.weight top ≤ ([] :: t.keys).length := List.countP_le_length
  simpa [Tree.stackWeight] using hle

theorem straight_top (t : Tree) (top : Path) : ∀ d ∈ [[]], t.Straight top d := by
  intro d hd
  rw [List.mem_singleton.mp hd]
  trivial

/-- The files below a directory, with paths that lead to them. -/
theorem filesBelow_spec (h : NamesDir t a top) : ∀ f ∈ filesBelow t top, top ++ f ≠ [] ∧
    t.resolve (a ++ f) = .ok (top ++ f) ∧ ∃ bytes, t.node (top ++ f) = some (.file bytes) := by
  intro f hf
  obtain ⟨d, name, rfl, hd, hname, bytes, hfile⟩ := Tree.of_mem_walk (straight_top t top) hf
  have hdir := Tree.node_straight h.dir hd
  rw [← List.append_assoc] at hfile
  have hresolve := Tree.resolve_child (Tree.resolve_below h.resolved h.dir hd) hdir hname hfile
    nofun
  refine ⟨by simp, ?_, bytes, by rwa [← List.append_assoc]⟩
  rwa [List.append_assoc, List.append_assoc] at hresolve

/-- `shred_dir` up to the removal, on a directory. -/
def overwriting (s : OverwriteShredder) (a : Path) : Run IoError Unit := do
  let _ ← symlinkMetadata a
  let files ← findFiles (← turns) [a] []
  s.overwriteFiles files

/-- A directory is overwritten, then removed. -/
theorem eval_shredDir {w : World} (h : NamesDir w.tree a top) :
    eval (s.shredDir a) w = eval (do s.overwriting a; removeDirAll a) w := by
  have hmeta : (w.tree.locate a).bind w.tree.nodeAt = .ok .dir := by
    simp only [h.located, Except.bind, Tree.nodeAt, h.dir]
  unfold shredDir overwriting
  simp only [eval_bind, eval_attempt, symlinkMetadata, eval_query_met, hmeta]
  cases w.fault 0 with
  | some f => rfl
  | none =>
    simp only [Node.isDir, if_true, eval_bind]
    rcases eval turns (w.next w.tree) with ⟨_ | n, u⟩
    · rfl
    · simp only
      rcases eval (findFiles n [a] []) u with ⟨_ | files, v⟩
      · rfl
      · rfl

/-- The operations before the removal are those of `overwriting`. -/
theorem follows_overwriting (h : NamesDir t a top) :
    Follows (s.overwriting a) t (s.overwriteActs t top) () := by
  have hmeta : Follows (symlinkMetadata a) t [.ask] .dir := by
    refine .query ?_
    simp only [h.located, Except.bind, Tree.nodeAt, h.dir]
  have hturns : Follows turns t [] (t.keys.length + 1) := fun _ => rfl
  have hfind := follows_findFiles h.resolved h.dir (straight_top t top) (stackWeight_top t top) []
  rw [List.map_singleton, List.append_nil, List.nil_append] at hfind
  have hfiles := follows_overwriteFiles (s := s) (refl_of Tree.Overwritten t) (filesBelow_spec h)
  exact hmeta.bind (hturns.bind (hfind.bind (by rw [effects_replicate_ask]; exact hfiles)))

theorem doomed_overwritten (h : NamesDir t a top) (hover : t.Overwritten t') :
    t'.doomed a = .ok (t'.belowRev top) := by
  simp only [Tree.doomed, hover.locate, h.located, Except.bind, hover.dir_iff.mpr h.dir]

theorem effects_overwriteActs (s : OverwriteShredder) (t : Tree) (top : Path) :
    effects (s.overwriteActs t top) t = effects (s.filesActs t top (filesBelow t top)) t := by
  rw [overwriteActs, effects_cons, effects_append, effects_replicate_ask]
  rfl

/-- What the tree is when the removal begins. -/
theorem overwriteActs_spec (h : NamesDir t a top) :
    t.Overwritten (effects (s.overwriteActs t top) t) ∧
    (∀ p, (∀ f ∈ filesBelow t top, p ≠ top ++ f) →
      (effects (s.overwriteActs t top) t).node p = t.node p) ∧
    ∀ f ∈ filesBelow t top, ∀ bytes, t.node (top ++ f) = some (.file bytes) →
      (effects (s.overwriteActs t top) t).node (top ++ f) = some (.file (s.zeroed bytes)) := by
  rw [effects_overwriteActs]
  exact effects_filesActs (refl_of Tree.Overwritten t)
    fun f hf => ⟨(filesBelow_spec h f hf).1, (filesBelow_spec h f hf).2.2⟩

/-- Shredding a directory performs the operations of its plan. -/
theorem follows_shredDir (h : NamesDir t a top) :
    Follows (s.shredDir a) t (s.shredActs t top) () := by
  have hover := (overwriteActs_spec (s := s) h).1
  have hremove := Follows.removeDirAll (doomed_overwritten h hover)
  intro faults
  rw [eval_shredDir h]
  exact (follows_overwriting h).bind hremove faults

/-! ### What has been done when it succeeds -/

/-- Every file of the tree was full of zeros when the removal began, the tree is gone, and what is
not in it is as it was. -/
structure Shredded (s : OverwriteShredder) (a top : Path) (w : World) : Prop where
  zeroed : ∀ names name bytes, w.tree.Straight top names → name ≠ ".." →
    w.tree.node (top ++ names ++ [name]) = some (.file bytes) →
      (eval (s.overwriting a) w).2.tree.node (top ++ names ++ [name]) =
        some (.file (List.replicate bytes.length 0))
  gone : ∀ p, top <+: p → (eval (s.shredDir a) w).2.tree.node p = none
  outside : ∀ p, ¬ top <+: p → (eval (s.shredDir a) w).2.tree.node p = w.tree.node p

theorem isNew_iff : (∃ passes, s = new passes) ↔ s.passes.toNat ≠ 0 := by
  have hone : (1 : UInt8).toNat = 1 := rfl
  have hmax : ∀ passes : UInt8, max passes 1 = if passes ≤ 1 then 1 else passes := fun _ => rfl
  constructor
  · rintro ⟨passes, rfl⟩
    show (max passes 1).toNat ≠ 0
    rw [hmax]
    split
    · decide
    · rename_i hmore
      rw [UInt8.le_iff_toNat_le] at hmore
      omega
  · intro hpasses
    obtain ⟨passes⟩ := s
    refine ⟨passes, congrArg mk ?_⟩
    rw [hmax]
    split
    · rename_i hle
      rw [UInt8.le_iff_toNat_le] at hle
      exact UInt8.toNat_inj.mp (by simp only at hpasses; omega)
    · rfl

/-- When the removal begins, each file holds what its passes left in it. -/
theorem node_overwriting {w : World} (h : NamesDir w.tree a top)
    (hok : (eval (s.shredDir a) w).1 = .ok ()) {names : List FileName} {name : FileName}
    (hnames : w.tree.Straight top names) (hname : name ≠ "..")
    (hfile : w.tree.node (top ++ names ++ [name]) = some (.file bytes)) :
    (eval (s.overwriting a) w).2.tree.node (top ++ names ++ [name]) =
      some (.file (s.zeroed bytes)) := by
  obtain ⟨u, hplay, -⟩ := (follows_shredDir (s := s) h).of_ok hok
  obtain ⟨v, hplay⟩ := play_left hplay
  have heval := follows_overwriting (s := s) h w.faults
  rw [show play (s.overwriteActs w.tree top) ⟨w.tree, w.faults⟩ = (none, v) from hplay] at heval
  have hmem := Tree.mem_walk h.dir (straight_top w.tree top) (stackWeight_top w.tree top)
    List.mem_cons_self (by rwa [List.append_nil]) hname (by rwa [List.append_nil])
  rw [List.nil_append] at hmem
  rw [List.append_assoc] at hfile ⊢
  rw [show eval (s.overwriting a) w = _ from heval]
  show v.tree.node (top ++ (names ++ [name])) = _
  rw [play_eq_none hplay]
  exact (overwriteActs_spec h).2.2 _ hmem bytes hfile

theorem mem_belowRev : p ∈ t.belowRev top ↔ p ∈ t.keys ∧ top <+: p := by
  unfold Tree.belowRev
  rw [(List.mergeSort_perm _ _).mem_iff, List.mem_filter, decide_eq_true_eq]

/-- The tree after the removal. -/
theorem node_shredActs (h : NamesDir t a top) (p : Path) :
    (effects (s.shredActs t top) t).node p = if top <+: p then none else t.node p := by
  have htop := Tree.locate_ne_nil h.located
  obtain ⟨-, hbeside, -⟩ := overwriteActs_spec (s := s) h
  rw [shredActs, effects_append, removeActs, effects_cons, Act.effect]
  generalize hu : effects (s.overwriteActs t top) t = u at hbeside ⊢
  by_cases hnil : p = []
  · subst hnil
    rw [Tree.node_nil, if_neg fun hle => htop (List.prefix_nil.mp hle), Tree.node_nil]
  rw [node_effects_unlink hnil]
  by_cases hp : top <+: p
  · rw [if_pos hp]
    split
    · rfl
    · rename_i hgone
      by_contra hnode
      obtain ⟨n, hn⟩ := Option.ne_none_iff_exists'.mp hnode
      exact hgone (mem_belowRev.mpr ⟨Tree.mem_keys_of_node hnil hn, hp⟩)
  · rw [if_neg hp, if_neg fun hmem => hp (mem_belowRev.mp hmem).2]
    refine hbeside p fun f _ he => hp ?_
    rw [he]
    exact List.prefix_append top f

/-- Shredding a directory that succeeds has zeroed every file exactly if the shredder is one that
`new` makes, or the files were zeros before. -/
theorem shredded_iff {w : World} (h : NamesDir w.tree a top)
    (hok : (eval (s.shredDir a) w).1 = .ok ()) :
    s.Shredded a top w ↔ (∃ passes, s = new passes) ∨
      ∀ names name bytes, w.tree.Straight top names → name ≠ ".." →
        w.tree.node (top ++ names ++ [name]) = some (.file bytes) →
          bytes = List.replicate bytes.length 0 := by
  obtain ⟨u, hplay, heval⟩ := (follows_shredDir (s := s) h).of_ok hok
  have htree : (eval (s.shredDir a) w).2.tree = effects (s.shredActs w.tree top) w.tree := by
    rw [heval]
    exact play_eq_none hplay
  rw [isNew_iff]
  constructor
  · intro hshredded
    refine or_iff_not_imp_left.mpr fun hpasses => ?_
    intro names name bytes hnames hname hfile
    have hleft := node_overwriting h hok hnames hname hfile
    rw [hshredded.zeroed names name bytes hnames hname hfile, zeroed,
      if_pos (not_not.mp hpasses)] at hleft
    exact (Node.file.inj (Option.some.inj hleft)).symm
  · intro hzeros
    refine ⟨fun names name bytes hnames hname hfile => ?_, fun p hp => ?_, fun p hp => ?_⟩
    · rw [node_overwriting h hok hnames hname hfile, zeroed]
      rcases hzeros with hpasses | hbefore
      · rw [if_neg hpasses]
      · rw [← hbefore names name bytes hnames hname hfile, ite_self]
    · rw [htree, node_shredActs h, if_pos hp]
    · rw [htree, node_shredActs h, if_neg hp]

/-! ### A directory with a file and a link -/

/-- The directory `d` holds a file and a link to a file beside it. -/
def linked : Tree :=
  (((∅ : Tree).put ["d"] .dir).put ["d", "a"] (.file [7, 8])).put ["d", "l"] (.link ⟨true, ["o"]⟩)
    |>.put ["o"] (.file [9])

theorem linked_dir : NamesDir linked ["d"] ["d"] := ⟨rfl, rfl, rfl⟩

theorem shredDir_linked (s : OverwriteShredder) :
    (eval (s.shredDir ["d"]) ⟨linked, []⟩).1 = .ok () := by
  rw [(follows_shredDir linked_dir).faultless]

/-- A shredder of one pass. -/
theorem shredded_iff_once : (new 1).Shredded ["d"] ["d"] ⟨linked, []⟩ :=
  (shredded_iff (w := ⟨linked, []⟩) linked_dir (shredDir_linked _)).mpr (.inl ⟨1, rfl⟩)

/-- The shredder that `Default` derives reports success, and the file still holds its bytes when it
is removed. -/
theorem default_not_zeroed : (eval (default.shredDir ["d"]) ⟨linked, []⟩).1 = .ok () ∧
    (eval (default.overwriting ["d"]) ⟨linked, []⟩).2.tree.node ["d", "a"] =
      some (.file [7, 8]) ∧ ¬ default.Shredded ["d"] ["d"] ⟨linked, []⟩ := by
  have hleft : (eval (default.overwriting ["d"]) ⟨linked, []⟩).2.tree.node ["d", "a"] =
      some (.file [7, 8]) := by
    have hnames : linked.Straight ["d"] [] := trivial
    have hname : "a" ≠ ".." := by decide
    exact node_overwriting (w := ⟨linked, []⟩) linked_dir (shredDir_linked _) hnames hname rfl
  refine ⟨shredDir_linked _, hleft, fun h => ?_⟩
  have hzeroed := h.zeroed [] "a" [7, 8] trivial (by decide) rfl
  exact absurd (hleft.symm.trans hzeroed) (by decide)

end Aegis.Store.OverwriteShredder
