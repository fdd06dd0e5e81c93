import Aegis.Lib.FileRun

/-! The shredders: what they overwrite, what they remove, and that it is all inside the directory
they are given. -/
namespace Aegis.Store
open Text FileTree FileTree.Run

/-- Passes of zeros over every file, then removal. -/
structure OverwriteShredder where
  passes : UInt8
  deriving DecidableEq

namespace OverwriteShredder

def new (passes : UInt8) : OverwriteShredder := ⟨max passes 1⟩

/-- What `Default` derives. -/
def default : OverwriteShredder := ⟨0⟩

def chunk : ℕ := 64 * 1024

/-- Zeros over the last `remaining` of the `len` bytes of an open file, a chunk a write. -/
def zeroRest (q : Path) (len remaining : ℕ) : Run IoError Unit :=
  if remaining = 0 then return ()
  else do
    let n := min remaining chunk
    writeAll q (len - remaining) (List.replicate n 0)
    zeroRest q len (remaining - n)
termination_by remaining
decreasing_by
  have hchunk : 0 < chunk := by decide
  omega

/-- `passes` times over the file: back to its start, zeros, flush and sync. -/
def zeroPasses (q : Path) (len : ℕ) : ℕ → Run IoError Unit
  | 0 => return ()
  | passes + 1 => do
    checkpoint
    zeroRest q len len
    checkpoint
    checkpoint
    zeroPasses q len passes

/-- A file that vanished is already shredded. -/
def overwriteFile (s : OverwriteShredder) (path : Path) : Run IoError Unit := do
  match ← attempt (metadata path) with
  | .error .notFound => return ()
  | .error e => throw e
  | .ok n =>
    if n.len = 0 then return ()
    else do
      let q ← openWrite path
      zeroPasses q n.len s.passes.toNat

def overwriteFiles (s : OverwriteShredder) : List Path → Run IoError Unit
  | [] => return ()
  | f :: fs => do
    s.overwriteFile f
    s.overwriteFiles fs

/-- The entries of a directory: the directories go on the stack, the files are kept. -/
def sortEntries (current : Path) : List (FileName × Node) → List Path → List Path →
    Run IoError (List Path × List Path)
  | [], stack, files => return (stack, files)
  | (name, n) :: es, stack, files => do
    checkpoint
    match n with
    | .dir => sortEntries current es ((current ++ [name]) :: stack) files
    | .file _ => sortEntries current es stack (files ++ [current ++ [name]])
    | _ => sortEntries current es stack files

/-- The files below the directories on the stack. A directory is read for each turn. -/
def findFiles : ℕ → List Path → List Path → Run IoError (List Path)
  | _, [], files => return files
  | 0, _ :: _, _ => throw (.other "more directories than nodes")
  | turns + 1, current :: stack, files => do
    let es ← readDir current
    let (stack, files) ← sortEntries current es stack files
    findFiles turns stack files

/-- How many turns a walk can take. -/
def turns : Run IoError ℕ := ExceptT.mk fun w => (.ok (w.tree.keys.length + 1), w)

def shredDir (s : OverwriteShredder) (dir : Path) : Run IoError Unit := do
  match ← attempt (symlinkMetadata dir) with
  | .error .notFound => return ()
  | .error e => throw e
  | .ok n =>
    if n.isDir then do
      let files ← findFiles (← turns) [dir] []
      s.overwriteFiles files
      removeDirAll dir
    else removeFile dir

end OverwriteShredder

/-- A shredder of this crate; the second only removes. -/
inductive Shredder where
  | overwrite (s : OverwriteShredder)
  | removeOnly
  deriving DecidableEq

/-- `RemoveOnlyShredder::shred_dir`. -/
def removeOnlyShredDir (dir : Path) : Run IoError Unit := do
  match ← attempt (removeDirAll dir) with
  | .ok () => return ()
  | .error .notFound => return ()
  | .error e => throw e

def Shredder.shredDir : Shredder → Path → Run IoError Unit
  | overwrite s => s.shredDir
  | removeOnly => removeOnlyShredDir

/-! ### What shredding keeps -/

section Keeps

variable {a : Path} {t t' : Tree}

/-- Only the bytes of files below `a` differ. -/
def Rewritten (a : Path) (t t' : Tree) : Prop :=
  ∀ p, t'.node p = t.node p ∨ (a <+: p ∧ p ≠ a) ∧ (∃ old, t.node p = some (.file old)) ∧
    ∃ new, t'.node p = some (.file new)

instance : IsPreorder Tree (Rewritten a) where
  refl _ _ := .inl rfl
  trans t u v htu huv p := by
    rcases huv p with hv | ⟨hp, ⟨old, hold⟩, hnew⟩
    · rw [hv]
      exact htu p
    · rcases htu p with hu | ⟨-, hfile, -⟩
      · exact .inr ⟨hp, ⟨old, hu ▸ hold⟩, hnew⟩
      · exact .inr ⟨hp, hfile, hnew⟩

theorem Rewritten.inside (h : Rewritten a t t') : t.Inside a t' := by
  intro p
  rcases h p with hsame | ⟨⟨hp, hne⟩, -, new, hnew⟩
  · exact .inl hsame
  · exact .inr ⟨.inl hp, by simp [hnew], fun hway => absurd (hway.eq_of_length_le hp.length_le) hne⟩

theorem Rewritten.plain {dir : Path} (h : Rewritten a t t') (hdir : t.Plain [] dir) :
    t'.Plain [] dir := by
  refine hdir.of_nodes fun q hq => ?_
  rcases h q with hsame | ⟨-, ⟨old, hold⟩, -⟩
  · exact .inl hsame
  · rcases hdir.node hq with hnode | hnode
    · rw [hold] at hnode
      cases hnode
    · rw [hold] at hnode
      cases hnode

theorem rewritten_splice {q : Path} (hq : a <+: q ∧ q ≠ a) (offset : ℕ) (bytes : Bytes) :
    Rewritten a t (t.spliceAt q offset bytes) := by
  rcases t.spliceAt_cases q offset bytes with hsame | ⟨old, hold, hput⟩
  · rw [hsame]
    exact refl_of (Rewritten a) t
  · rw [hput]
    intro p
    by_cases hp : p = q
    · subst hp
      have hne : p ≠ [] := fun hnil => by
        subst hnil
        exact hq.2 (List.prefix_nil.mp hq.1).symm
      exact .inr ⟨hq, ⟨old, hold⟩, _, Tree.node_put_self hne⟩
    · exact .inl (Tree.node_put_of_ne hp)

/-- A directory that the walk may read. -/
def DirBelow (a : Path) (t : Tree) (d : Path) : Prop := a <+: d ∧ t.Plain [] d

/-- A file that the walk may find. -/
def FileBelow (a : Path) (t : Tree) (f : Path) : Prop :=
  ∃ dir name, f = dir ++ [name] ∧ DirBelow a t dir ∧ name ≠ ".." ∧
    ∃ bytes, t.node f = some (.file bytes)

theorem FileBelow.below {f : Path} (h : FileBelow a t f) : a <+: f ∧ f ≠ a := by
  obtain ⟨dir, name, rfl, ⟨hdir, -⟩, -⟩ := h
  refine ⟨hdir.trans (List.prefix_append _ _), fun he => ?_⟩
  have hlength := hdir.length_le
  rw [← he, List.length_append, List.length_singleton] at hlength
  omega

theorem FileBelow.rewritten {f : Path} (h : FileBelow a t f) (hr : Rewritten a t t') :
    FileBelow a t' f := by
  obtain ⟨dir, name, hf, ⟨hdir, hplain⟩, hname, bytes, hbytes⟩ := h
  refine ⟨dir, name, hf, ⟨hdir, hr.plain hplain⟩, hname, ?_⟩
  rcases hr f with hsame | ⟨-, -, hnew⟩
  · exact ⟨bytes, hsame.trans hbytes⟩
  · exact hnew

namespace OverwriteShredder

variable {s : OverwriteShredder} {P : Tree → Prop}

theorem keeps_zeroRest {q : Path} (hq : a <+: q ∧ q ≠ a) (len remaining : ℕ) :
    Keeps (Rewritten a) (fun _ => True) (zeroRest q len remaining) (onOk fun _ _ => True) := by
  induction remaining using Nat.strong_induction_on with
  | _ remaining ih =>
    unfold zeroRest
    split
    · exact .pure fun _ _ => trivial
    · rename_i hpos
      have hchunk : 0 < chunk := by decide
      refine .bind (.writeAll fun t new _ => ⟨rewritten_splice hq _ _, trivial⟩) fun _ => ?_
      exact ih _ (by omega)

theorem keeps_zeroPasses {q : Path} (hq : a <+: q ∧ q ≠ a) (len passes : ℕ) :
    Keeps (Rewritten a) (fun _ => True) (zeroPasses q len passes) (onOk fun _ _ => True) := by
  induction passes with
  | zero => exact .pure fun _ _ => trivial
  | succ passes ih =>
    refine .bind .checkpoint fun _ => .bind (keeps_zeroRest hq len len) fun _ => ?_
    exact .bind .checkpoint fun _ => .bind .checkpoint fun _ => ih

theorem keeps_overwriteFile (f : Path) :
    Keeps (Rewritten a) (FileBelow a · f) (s.overwriteFile f) (onOk fun _ _ => True) := by
  have hopen : Keeps (Rewritten a) (FileBelow a · f) (openWrite f) (onOk fun q t =>
      q = f ∧ FileBelow a t f) := by
    refine .query (fun t ht => ?_) fun _ _ _ => trivial
    obtain ⟨dir, name, hf, ⟨hdir, hplain⟩, hname, bytes, hbytes⟩ := ht
    cases hq : t.existing f with
    | error e => trivial
    | ok q =>
      subst hf
      exact ⟨Tree.existing_ok hplain hname (by simp [hbytes]) hq,
        dir, name, rfl, ⟨hdir, hplain⟩, hname, bytes, hbytes⟩
  refine .bind (Keeps.ask.attempt) fun r => ?_
  rcases r with e | n
  · cases e with
    | notFound => exact .pure fun _ _ => trivial
    | alreadyExists => exact .throw _
    | other text => exact .throw _
  · simp only
    split
    · exact .pure fun _ _ => trivial
    · refine .bind hopen fun q w hw => ?_
      obtain ⟨hq, hf⟩ := hw
      exact keeps_zeroPasses (hq ▸ hf.below) _ _ w trivial

theorem keeps_overwriteFiles (fs : List Path) :
    Keeps (Rewritten a) (fun t => ∀ f ∈ fs, FileBelow a t f) (s.overwriteFiles fs)
      (onOk fun _ _ => True) := by
  induction fs with
  | nil => exact .pure fun _ _ => trivial
  | cons f fs ih =>
    have hfirst : Keeps (Rewritten a) (fun t => ∀ g ∈ f :: fs, FileBelow a t g) (s.overwriteFile f)
        (onOk fun _ _ => True) :=
      (keeps_overwriteFile f).mono (fun t ht => ht f List.mem_cons_self) fun _ _ h => h
    refine .bind (hfirst.stableOk fun t t' ht hr g hg => (ht g hg).rewritten hr) fun _ => ?_
    exact ih.mono (fun t ht g hg => ht.2 g (List.mem_cons_of_mem f hg)) fun _ _ h => h

theorem keeps_sortEntries {current : Path} (hcurrent : DirBelow a t current)
    {es : List (FileName × Node)}
    (hes : ∀ e ∈ es, e.1 ≠ ".." ∧ t.node (current ++ [e.1]) = some e.2) {stack files : List Path}
    (hstack : ∀ d ∈ stack, DirBelow a t d) (hfiles : ∀ f ∈ files, FileBelow a t f) :
    Keeps Eq (· = t) (sortEntries current es stack files) (onOk fun r u =>
      u = t ∧ (∀ d ∈ r.1, DirBelow a t d) ∧ ∀ f ∈ r.2, FileBelow a t f) := by
  induction es generalizing stack files with
  | nil => exact .pure fun _ ht => ⟨ht, hstack, hfiles⟩
  | cons e es ih =>
    obtain ⟨name, n⟩ := e
    obtain ⟨hname, hnode⟩ := hes _ List.mem_cons_self
    have hrest : ∀ e ∈ es, e.1 ≠ ".." ∧ t.node (current ++ [e.1]) = some e.2 := fun e he =>
      hes e (List.mem_cons_of_mem _ he)
    refine .bind .checkpoint fun _ => ?_
    cases n with
    | dir =>
      refine ih hrest (fun d hd => ?_) hfiles
      rcases List.mem_cons.mp hd with rfl | hd
      · exact ⟨hcurrent.1.trans (List.prefix_append _ _),
          Tree.plain_append.mpr ⟨hcurrent.2, hname, .inl hnode, trivial⟩⟩
      · exact hstack d hd
    | file bytes =>
      refine ih hrest hstack fun f hf => ?_
      rcases List.mem_append.mp hf with hf | hf
      · exact hfiles f hf
      · rw [List.mem_singleton.mp hf]
        exact ⟨current, name, rfl, hcurrent, hname, bytes, hnode⟩
    | link target => exact ih hrest hstack hfiles
    | special => exact ih hrest hstack hfiles

theorem keeps_findFiles (turns : ℕ) {stack files : List Path}
    (hstack : ∀ d ∈ stack, DirBelow a t d) (hfiles : ∀ f ∈ files, FileBelow a t f) :
    Keeps Eq (· = t) (findFiles turns stack files) (onOk fun fs u =>
      u = t ∧ ∀ f ∈ fs, FileBelow a t f) := by
  induction turns generalizing stack files with
  | zero =>
    cases stack with
    | nil => exact .pure fun _ ht => ⟨ht, hfiles⟩
    | cons d stack => exact .throw _
  | succ turns ih =>
    cases stack with
    | nil => exact .pure fun _ ht => ⟨ht, hfiles⟩
    | cons current stack =>
      have hcurrent := hstack current List.mem_cons_self
      have hread : Keeps Eq (· = t) (readDir current) (onOk fun es u => u = t ∧
          ∀ e ∈ es, e.1 ≠ ".." ∧ t.node (current ++ [e.1]) = some e.2) := by
        refine .query (fun u hu => ?_) fun _ _ _ => trivial
        subst hu
        cases hes : u.entriesAt current with
        | error e => trivial
        | ok es => exact ⟨rfl, Tree.entriesAt_ok hcurrent.2 hes⟩
      refine .bind hread fun es w hw => ?_
      have hsort := keeps_sortEntries hcurrent hw.2
        (fun d hd => hstack d (List.mem_cons_of_mem current hd)) hfiles
      have hrun : Keeps Eq (· = t) (do
          let (stack, files) ← sortEntries current es stack files
          findFiles turns stack files) (onOk fun fs u => u = t ∧ ∀ f ∈ fs, FileBelow a t f) := by
        refine .bind hsort fun r v hv => ?_
        exact ih hv.2.1 hv.2.2 v hv.1
      exact hrun w hw.1

theorem keeps_walk (turns : ℕ) : Keeps (Tree.Inside a) (Tree.Plain · [] a)
    (findFiles turns [a] []) (onOk fun fs t => t.Plain [] a ∧ ∀ f ∈ fs, FileBelow a t f) := by
  intro w hw
  have hstack : ∀ d ∈ [a], DirBelow a w.tree d := fun d hd => by
    rw [List.mem_singleton.mp hd]
    exact ⟨List.prefix_rfl, hw⟩
  have hfind := keeps_findFiles turns hstack (fun f hf => absurd hf List.not_mem_nil)
  have hplain : Keeps Eq (· = w.tree) (findFiles turns [a] []) (onOk fun fs t =>
      t.Plain [] a ∧ ∀ f ∈ fs, FileBelow a t f) := by
    refine hfind.mono (fun _ ht => ht) fun r t hr => ?_
    cases r with
    | error e => trivial
    | ok fs =>
      obtain ⟨rfl, hfiles⟩ := hr
      exact ⟨hw, hfiles⟩
  exact hplain.of_eq w rfl

theorem keeps_overwriting (fs : List Path) :
    Keeps (Tree.Inside a) (fun t => t.Plain [] a ∧ ∀ f ∈ fs, FileBelow a t f)
      (s.overwriteFiles fs) (onOk fun _ t => t.Plain [] a) := by
  have hfiles : Keeps (Rewritten a) (fun t => t.Plain [] a ∧ ∀ f ∈ fs, FileBelow a t f)
      (s.overwriteFiles fs) (onOk fun _ _ => True) :=
    (keeps_overwriteFiles fs).mono (fun _ ht => ht.2) fun _ _ h => h
  have hstable := hfiles.stableOk fun t t' ht hr =>
    ⟨hr.plain ht.1, fun f hf => (ht.2 f hf).rewritten hr⟩
  refine (hstable.weaken fun _ _ hr => hr.inside).mono (fun _ ht => ht) fun r t hr => ?_
  cases r with
  | error e => trivial
  | ok _ => exact hr.2.1

end OverwriteShredder

theorem plain_dropLast (h : t.Plain [] a) : t.Plain [] a.dropLast :=
  h.above (List.dropLast_prefix a)

theorem inside_remove_plain {q : Path} (h : t.Plain [] a) (hq : a <+: q) :
    t.Inside a (t.remove q) ∧ (t.remove q).Plain [] a :=
  ⟨Tree.inside_remove hq, h.inside (Tree.inside_remove hq)⟩

/-- Shredding a directory keeps to what is inside it. -/
theorem OverwriteShredder.keeps_shredDir (s : OverwriteShredder) (a : Path) :
    Keeps (Tree.Inside a) (Tree.Plain · [] a) (s.shredDir a) (onOk fun _ t => t.Plain [] a) := by
  refine .bind (Keeps.ask.attempt) fun r => ?_
  rcases r with e | n
  · cases e with
    | notFound => exact .pure fun _ ht => ht
    | alreadyExists => exact .throw _
    | other text => exact .throw _
  · simp only
    split
    · have hturns : Keeps (Tree.Inside a) (Tree.Plain · [] a) turns
          (onOk fun _ t => t.Plain [] a) :=
        fun w hw => ⟨refl_of (Tree.Inside a) _, hw⟩
      refine .bind hturns fun n => .bind (keeps_walk n) fun fs => .bind (keeps_overwriting fs) ?_
      exact fun _ => .removeDirAll (fun _ => plain_dropLast) fun _ _ => inside_remove_plain
    · refine (Keeps.removeFile (fun _ => plain_dropLast) fun t ht =>
        inside_remove_plain ht List.prefix_rfl).mono (fun _ ht => ht) fun r _ hr => ?_
      cases r with
      | error e => trivial
      | ok _ => exact hr

theorem keeps_removeOnly (a : Path) : Keeps (Tree.Inside a) (Tree.Plain · [] a)
    (removeOnlyShredDir a) (onOk fun _ t => t.Plain [] a) := by
  have hremove : Keeps (Tree.Inside a) (Tree.Plain · [] a) (removeDirAll a)
      (onOk fun _ t => t.Plain [] a) :=
    .removeDirAll (fun _ => plain_dropLast) fun _ _ => inside_remove_plain
  have hstable := hremove.stable fun t t' ht hi => ht.inside hi
  refine .bind hstable.attempt fun r => ?_
  rcases r with e | _
  · cases e with
    | notFound => exact .pure fun _ ht => ht.2
    | alreadyExists => exact .throw _
    | other text => exact .throw _
  · exact .pure fun _ ht => ht.2

theorem Shredder.keeps (s : Shredder) (a : Path) :
    Keeps (Tree.Inside a) (Tree.Plain · [] a) (s.shredDir a) (onOk fun _ t => t.Plain [] a) := by
  cases s with
  | overwrite s => exact s.keeps_shredDir a
  | removeOnly => exact keeps_removeOnly a

end Keeps

end Aegis.Store
