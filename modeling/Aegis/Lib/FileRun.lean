import Aegis.Lib.FileTree

/-! Programs over a file tree whose every operation may fail, the relations they keep between the
tree they find and the tree they leave, and what they do where nothing fails. -/
namespace FileTree
open Text

/-- An error that an operation meets, with the bytes of a write that came before it. -/
structure Fault where
  text : String
  progress : ℕ

/-- The tree, and what the next operations meet. -/
structure World where
  tree : Tree
  faults : List (Option Fault)

abbrev Run (ε α : Type) := ExceptT ε (StateM World) α

namespace Run

variable {ε ε' α β : Type}

def eval (m : Run ε α) (w : World) : Except ε α × World := m.run.run w

/-- The result as a value. -/
def attempt (m : Run ε α) : Run ε' (Except ε α) := ExceptT.mk do return .ok (← m.run)

/-- An operation that a fault may keep from acting, or leave with a part of its effect. -/
def fallible (act : Tree → Except IoError (α × Tree)) (cut : ℕ → Tree → Tree) : Run IoError α :=
  ExceptT.mk fun w =>
    match w.faults.head?.join with
    | some e => (.error (.other e.text), ⟨cut e.progress w.tree, w.faults.tail⟩)
    | none =>
      match act w.tree with
      | .error e => (.error e, ⟨w.tree, w.faults.tail⟩)
      | .ok (a, t) => (.ok a, ⟨t, w.faults.tail⟩)

/-- An operation that changes nothing. -/
def query (ask : Tree → Except IoError α) : Run IoError α :=
  fallible (fun t => (ask t).map (·, t)) fun _ t => t

/-- An operation that a fault keeps from acting. -/
def change (act : Tree → Except IoError (α × Tree)) : Run IoError α := fallible act fun _ t => t

/-! ### The operations -/

/-- An operation on an open file or directory that tells nothing. -/
def checkpoint : Run IoError Unit := query fun _ => .ok ()

/-- `metadata`, through a link at the end of the path. -/
def metadata (p : Path) : Run IoError Node := query fun t => (t.resolve p).bind t.nodeAt

/-- `symlink_metadata`, of the link itself. -/
def symlinkMetadata (p : Path) : Run IoError Node := query fun t => (t.locate p).bind t.nodeAt

def readFile (p : Path) : Run IoError Bytes := query fun t => t.bytesAt p

def readDir (p : Path) : Run IoError (List (FileName × Node)) := query fun t => t.entriesAt p

def isDir (p : Path) : Run IoError Bool := do
  match ← attempt (metadata p) with
  | .ok n => return n.isDir
  | .error _ => return false

def createDir (p : Path) : Run IoError Unit := change fun t => t.makeDir p

/-- A directory that cannot be made may be there already. -/
def orIsDir (p : Path) (e : IoError) : Run IoError Unit := do
  if ← isDir p then return () else throw e

/-- `create_dir_all`, with the names of the path from its end. -/
def createDirAllRev : List FileName → Run IoError Unit
  | [] => return ()
  | name :: above => do
    match ← attempt (createDir (above.reverse ++ [name])) with
    | .ok () => return ()
    | .error .notFound => do
      createDirAllRev above
      match ← attempt (createDir (above.reverse ++ [name])) with
      | .ok () => return ()
      | .error e => orIsDir (above.reverse ++ [name]) e
    | .error e => orIsDir (above.reverse ++ [name]) e

def createDirAll (p : Path) : Run IoError Unit := createDirAllRev p.reverse

/-- Open for writing with what was there cut off, or make the file; a handle is the place that the
path leads to. -/
def openTruncate (p : Path) : Run IoError Path := change fun t => t.truncate p

/-- Open for writing what is there. -/
def openWrite (p : Path) : Run IoError Path := query fun t => t.existing p

/-- Open a file that must not exist, not even as a link. -/
def openNew (p : Path) : Run IoError Path := change fun t => t.makeNew p

/-- `write_all`, which an error may leave half done. -/
def writeAll (q : Path) (offset : ℕ) (bytes : Bytes) : Run IoError Unit :=
  fallible (fun t => .ok ((), t.spliceAt q offset bytes)) fun n t =>
    t.spliceAt q offset (bytes.take n)

/-- `fs::write`. -/
def writeFile (p : Path) (bytes : Bytes) : Run IoError Unit := do
  let q ← openTruncate p
  writeAll q 0 bytes

def rename (p q : Path) : Run IoError Unit := change fun t => t.move p q

def removeFile (p : Path) : Run IoError Unit := change fun t => t.unlinkFile p

def unlinkAll : List Path → Run IoError Unit
  | [] => return ()
  | p :: ps => do
    change fun t => .ok ((), t.remove p)
    unlinkAll ps

def removeDirAll (p : Path) : Run IoError Unit := do
  let ps ← query fun t => t.doomed p
  unlinkAll ps

/-! ### What a program keeps -/

@[simp] theorem eval_pure (a : α) (w : World) : eval (pure a : Run ε α) w = (.ok a, w) := rfl

theorem eval_bind (m : Run ε α) (f : α → Run ε β) (w : World) :
    eval (m >>= f) w = match eval m w with
      | (.ok a, u) => eval (f a) u
      | (.error e, u) => (.error e, u) := by
  have hrun : eval (m >>= f) w = (match eval m w with
      | (r, u) => (ExceptT.bindCont f r).run u) := rfl
  rw [hrun]
  rcases eval m w with ⟨_ | _, u⟩ <;> rfl

@[simp] theorem eval_attempt (m : Run ε α) (w : World) :
    eval (attempt m : Run ε' (Except ε α)) w = (.ok (eval m w).1, (eval m w).2) := rfl

@[simp] theorem eval_adapt (f : ε → ε') (m : Run ε α) (w : World) :
    eval (ExceptT.adapt f m) w = ((eval m w).1.mapError f, (eval m w).2) := rfl

/-- From a tree with `P` on, the program leaves a tree that `R` relates to it, and `Q` holds of what
it returns and leaves, whatever fails. -/
def Keeps (R : Tree → Tree → Prop) (P : Tree → Prop) (m : Run ε α)
    (Q : Except ε α → Tree → Prop) : Prop :=
  ∀ w, P w.tree → R w.tree (eval m w).2.tree ∧ Q (eval m w).1 (eval m w).2.tree

/-- A condition on what is returned where there is no error. -/
def onOk (Q : α → Tree → Prop) : Except ε α → Tree → Prop
  | .ok a, t => Q a t
  | .error _, _ => True

section Keeps

variable {R : Tree → Tree → Prop} {P P' : Tree → Prop} {m : Run ε α}
  {Q Q' : Except ε α → Tree → Prop}

theorem Keeps.mono (h : Keeps R P m Q) (hP : ∀ t, P' t → P t) (hQ : ∀ r t, Q r t → Q' r t) :
    Keeps R P' m Q' := by
  intro w hw
  obtain ⟨hR, hr⟩ := h w (hP _ hw)
  exact ⟨hR, hQ _ _ hr⟩

theorem Keeps.attempt (h : Keeps R P m Q) :
    Keeps R P (attempt m : Run ε' (Except ε α)) (onOk Q) :=
  fun w hw => h w hw

theorem Keeps.adapt {q : α → Tree → Prop} (f : ε → ε') (h : Keeps R P m (onOk q)) :
    Keeps R P (ExceptT.adapt f m) (onOk q) := by
  intro w hw
  obtain ⟨hR, hr⟩ := h w hw
  refine ⟨hR, ?_⟩
  rw [eval_adapt]
  cases hm : (eval m w).1 with
  | error e => trivial
  | ok a =>
    rw [hm] at hr
    exact hr

/-- An operation keeps what its effect keeps, cut short by a fault or not. -/
theorem Keeps.fallible {act : Tree → Except IoError (α × Tree)} {cut : ℕ → Tree → Tree}
    {Q : Except IoError α → Tree → Prop}
    (hcut : ∀ t n e, P t → R t (cut n t) ∧ Q (.error e) (cut n t))
    (hact : ∀ t a t', P t → act t = .ok (a, t') → R t t' ∧ Q (.ok a) t')
    (herr : ∀ t e, P t → act t = .error e → R t t ∧ Q (.error e) t) :
    Keeps R P (fallible act cut) Q := by
  intro w hw
  have heval : eval (Run.fallible act cut) w = match w.faults.head?.join with
      | some e => (.error (.other e.text), ⟨cut e.progress w.tree, w.faults.tail⟩)
      | none => match act w.tree with
        | .error e => (.error e, ⟨w.tree, w.faults.tail⟩)
        | .ok (a, t) => (.ok a, ⟨t, w.faults.tail⟩) := rfl
  rw [heval]
  split
  · exact hcut _ _ _ hw
  · split
    · rename_i hact'
      exact herr _ _ hw hact'
    · rename_i hact'
      exact hact _ _ _ hw hact'

/-- What `R` keeps of the first tree stays with every program that keeps to it. -/
theorem Keeps.stable (hstable : ∀ t t', P t → R t t' → P t') (h : Keeps R P m Q) :
    Keeps R P m fun r t => Q r t ∧ P t := by
  intro w hw
  obtain ⟨hR, hQ⟩ := h w hw
  exact ⟨hR, hQ, hstable _ _ hw hR⟩

theorem Keeps.stableOk {q : α → Tree → Prop} (hstable : ∀ t t', P t → R t t' → P t')
    (h : Keeps R P m (onOk q)) : Keeps R P m (onOk fun a t => q a t ∧ P t) := by
  refine (h.stable hstable).mono (fun _ ht => ht) fun r t hr => ?_
  cases r with
  | error e => trivial
  | ok a => exact hr

theorem Keeps.weaken {R' : Tree → Tree → Prop} (hR : ∀ t t', R t t' → R' t t')
    (h : Keeps R P m Q) : Keeps R' P m Q := by
  intro w hw
  obtain ⟨hr, hQ⟩ := h w hw
  exact ⟨hR _ _ hr, hQ⟩

theorem Keeps.writeAll {q : Path} {offset : ℕ} {bytes : Bytes}
    (hsplice : ∀ t new, P t → R t (t.spliceAt q offset new) ∧ P (t.spliceAt q offset new)) :
    Keeps R P (writeAll q offset bytes) (onOk fun _ t => P t) := by
  refine .fallible (fun t n e ht => ⟨(hsplice t _ ht).1, trivial⟩) (fun t _ t' ht hact => ?_)
    fun t e _ hact => nomatch hact
  cases hact
  exact hsplice t bytes ht

section Rules

variable [IsPreorder Tree R] {q : α → Tree → Prop} {s : β → Tree → Prop}

theorem Keeps.pure {a : α} (h : ∀ t, P t → q a t) :
    Keeps R P (pure a : Run ε α) (onOk q) :=
  fun w hw => ⟨refl_of R _, h w.tree hw⟩

theorem Keeps.throw (e : ε) : Keeps R P (throw e : Run ε α) (onOk q) :=
  fun _ _ => ⟨refl_of R _, trivial⟩

theorem Keeps.bind {f : α → Run ε β} (hm : Keeps R P m (onOk q))
    (hf : ∀ a, Keeps R (q a) (f a) (onOk s)) : Keeps R P (m >>= f) (onOk s) := by
  intro w hw
  obtain ⟨hR, hr⟩ := hm w hw
  rw [eval_bind]
  rcases heval : eval m w with ⟨_ | a, u⟩
  · rw [heval] at hR
    exact ⟨hR, trivial⟩
  · rw [heval] at hR hr
    obtain ⟨hR', hs⟩ := hf a u hr
    exact ⟨trans_of R hR hR', hs⟩

theorem Keeps.query {ask : Tree → Except IoError α} {Q : Except IoError α → Tree → Prop}
    (hask : ∀ t, P t → Q (ask t) t) (hfault : ∀ t e, P t → Q (.error e) t) :
    Keeps R P (query ask) Q := by
  refine .fallible (fun t _ e ht => ⟨refl_of R t, hfault t e ht⟩) (fun t a t' ht hact => ?_)
    fun t e ht hact => ?_
  · have ha := hask t ht
    cases hask' : ask t with
    | error e => rw [hask'] at hact; cases hact
    | ok b =>
      rw [hask'] at hact ha
      cases hact
      exact ⟨refl_of R _, ha⟩
  · exact ⟨refl_of R t, hfault t e ht⟩

/-- A query keeps what held before, whatever it answers. -/
theorem Keeps.ask {ask : Tree → Except IoError α} :
    Keeps R P (Run.query ask) fun _ t => P t :=
  .query (fun _ ht => ht) fun _ _ ht => ht

theorem Keeps.change {act : Tree → Except IoError (α × Tree)} {Q : Except IoError α → Tree → Prop}
    (hact : ∀ t a t', P t → act t = .ok (a, t') → R t t' ∧ Q (.ok a) t')
    (hfault : ∀ t e, P t → Q (.error e) t) : Keeps R P (change act) Q :=
  .fallible (fun t _ e ht => ⟨refl_of R t, hfault t e ht⟩) hact
    fun t e ht _ => ⟨refl_of R t, hfault t e ht⟩

/-- A program that keeps every tree as it is keeps to every relation. -/
theorem Keeps.of_eq (h : Keeps Eq P m Q) : Keeps R P m Q :=
  h.weaken fun t _ he => he.subst (refl_of R t)

/-! ### What the operations keep -/

variable {p : Path} {dir : Path} {name : FileName}

theorem Keeps.checkpoint : Keeps R P checkpoint (onOk fun _ t => P t) :=
  .query (fun _ ht => ht) fun _ _ _ => trivial

theorem Keeps.isDir : Keeps R P (isDir p) (onOk fun _ t => P t) :=
  .bind (Keeps.ask.attempt) fun r => by
    cases r with
    | error e => exact .pure fun _ ht => ht
    | ok n => exact .pure fun _ ht => ht

theorem Keeps.orIsDir (e : IoError) : Keeps R P (orIsDir p e) (onOk fun _ t => P t) :=
  .bind .isDir fun b => by
    cases b with
    | false => exact .throw e
    | true => exact .pure fun _ ht => ht

theorem Keeps.createDir (hplain : ∀ t, P t → t.Plain [] p.dropLast)
    (hput : ∀ t, P t → R t (t.put p .dir) ∧ P (t.put p .dir)) :
    Keeps R P (createDir p) fun _ t => P t := by
  refine .change (fun t _ t' ht hact => ?_) fun _ _ ht => ht
  obtain ⟨-, -, rfl⟩ := Tree.makeDir_ok (hplain t ht) hact
  exact hput t ht

theorem Keeps.createDirAllRev {names : List FileName}
    (hplain : ∀ t q, P t → q <+: names.reverse → t.Plain [] q.dropLast)
    (hput : ∀ t q, P t → q <+: names.reverse → R t (t.put q .dir) ∧ P (t.put q .dir)) :
    Keeps R P (createDirAllRev names) (onOk fun _ t => P t) := by
  induction names with
  | nil => exact .pure fun _ ht => ht
  | cons name above ih =>
    rw [List.reverse_cons] at hplain hput
    have hmake : Keeps R P (Run.createDir (above.reverse ++ [name])) fun _ t => P t :=
      .createDir (fun t ht => hplain t _ ht List.prefix_rfl)
        fun t ht => hput t _ ht List.prefix_rfl
    have habove : ∀ q, q <+: above.reverse → q <+: above.reverse ++ [name] := fun q hq =>
      hq.trans (List.prefix_append _ _)
    have hrest := ih (fun t q ht hq => hplain t q ht (habove q hq))
      fun t q ht hq => hput t q ht (habove q hq)
    refine .bind hmake.attempt fun r => ?_
    rcases r with e | _
    · cases e with
      | notFound =>
        refine .bind hrest fun _ => .bind hmake.attempt fun r => ?_
        cases r with
        | error e => exact .orIsDir e
        | ok _ => exact .pure fun _ ht => ht
      | alreadyExists => exact .orIsDir _
      | other text => exact .orIsDir _
    · exact .pure fun _ ht => ht

theorem Keeps.createDirAll (hplain : ∀ t q, P t → q <+: p → t.Plain [] q.dropLast)
    (hput : ∀ t q, P t → q <+: p → R t (t.put q .dir) ∧ P (t.put q .dir)) :
    Keeps R P (createDirAll p) (onOk fun _ t => P t) :=
  .createDirAllRev (by rwa [List.reverse_reverse]) (by rwa [List.reverse_reverse])

/-- A file is written in a plain directory, under a name where there is nothing but a file. -/
theorem Keeps.writeFile {bytes : Bytes} (hname : name ≠ "..")
    (hP : ∀ t, P t → t.Plain [] dir ∧
      (t.node (dir ++ [name]) = none ∨ ∃ old, t.node (dir ++ [name]) = some (.file old)))
    (hput : ∀ t new, P t → R t (t.put (dir ++ [name]) (.file new)) ∧
      P (t.put (dir ++ [name]) (.file new))) :
    Keeps R P (writeFile (dir ++ [name]) bytes) (onOk fun _ t =>
      P t ∧ t.node (dir ++ [name]) = some (.file bytes)) := by
  have hne : dir ++ [name] ≠ [] := by simp
  have hopen : Keeps R P (Run.openTruncate (dir ++ [name])) (onOk fun q t =>
      q = dir ++ [name] ∧ P t ∧ t.node (dir ++ [name]) = some (.file [])) := by
    refine .change (fun t q t' ht hact => ?_) fun _ _ _ => trivial
    obtain ⟨hplain, hnode⟩ := hP t ht
    have hlink : ∀ target, t.node (dir ++ [name]) ≠ some (.link target) := by
      rcases hnode with hnone | ⟨old, hold⟩
      · simp [hnone]
      · simp [hold]
    obtain ⟨rfl, ⟨hspecial, -⟩ | ⟨-, rfl⟩⟩ := Tree.truncate_ok hplain hname hlink hact
    · rcases hnode with hnone | ⟨old, hold⟩
      · rw [hnone] at hspecial
        cases hspecial
      · rw [hold] at hspecial
        cases hspecial
    · exact ⟨(hput t [] ht).1, rfl, (hput t [] ht).2, Tree.node_put_self hne⟩
  have hsplice : ∀ (t : Tree) (new : Bytes), t.node (dir ++ [name]) = some (.file []) →
      t.spliceAt (dir ++ [name]) 0 new = t.put (dir ++ [name]) (.file new) := by
    intro t new hnode
    simp [Tree.spliceAt, hnode, Tree.splice]
  refine .bind hopen fun q => .fallible (fun t n e ht => ?_) (fun t _ t' ht hact => ?_)
    fun t e _ hact => by cases hact
  · obtain ⟨rfl, ht, hnode⟩ := ht
    rw [hsplice t _ hnode]
    exact ⟨(hput t _ ht).1, trivial⟩
  · obtain ⟨rfl, ht, hnode⟩ := ht
    rw [hsplice t _ hnode] at hact
    cases hact
    exact ⟨(hput t _ ht).1, (hput t _ ht).2, Tree.node_put_self hne⟩

theorem Keeps.openNew (hplain : ∀ t, P t → t.Plain [] p.dropLast)
    (hput : ∀ t, P t → R t (t.put p (.file [])) ∧ P (t.put p (.file []))) :
    Keeps R P (openNew p) fun r t => P t ∧ ∀ q, r = .ok q → q = p := by
  refine .change (fun t q t' ht hact => ?_) fun t e ht => ⟨ht, nofun⟩
  obtain ⟨rfl, -, -, rfl⟩ := Tree.makeNew_ok (hplain t ht) hact
  exact ⟨(hput t ht).1, (hput t ht).2, fun _ he => (Except.ok.inj he).symm⟩

theorem Keeps.removeFile (hplain : ∀ t, P t → t.Plain [] p.dropLast)
    (hremove : ∀ t, P t → R t (t.remove p) ∧ P (t.remove p)) :
    Keeps R P (removeFile p) fun _ t => P t := by
  refine .change (fun t _ t' ht hact => ?_) fun _ _ ht => ht
  obtain rfl := Tree.unlinkFile_ok (hplain t ht) hact
  exact hremove t ht

theorem Keeps.unlinkAll {ps : List Path}
    (hremove : ∀ t, ∀ q ∈ ps, P t → R t (t.remove q) ∧ P (t.remove q)) :
    Keeps R P (unlinkAll ps) (onOk fun _ t => P t) := by
  induction ps with
  | nil => exact .pure fun _ ht => ht
  | cons p ps ih =>
    have hunlink : Keeps R P (Run.change fun t => .ok ((), t.remove p)) (onOk fun _ t => P t) := by
      refine .change (fun t _ t' ht hact => ?_) fun _ _ _ => trivial
      cases hact
      exact hremove t p List.mem_cons_self ht
    exact .bind hunlink fun _ => ih fun t q hq => hremove t q (List.mem_cons_of_mem p hq)

theorem Keeps.removeDirAll (hplain : ∀ t, P t → t.Plain [] p.dropLast)
    (hremove : ∀ t q, P t → p <+: q → R t (t.remove q) ∧ P (t.remove q)) :
    Keeps R P (removeDirAll p) (onOk fun _ t => P t) := by
  have hask : Keeps R P (Run.query fun t => t.doomed p) (onOk fun ps t =>
      P t ∧ ∀ q ∈ ps, p <+: q) := by
    refine .query (fun t ht => ?_) fun _ _ _ => trivial
    cases hps : t.doomed p with
    | error e => trivial
    | ok ps => exact ⟨ht, Tree.doomed_ok (hplain t ht) hps⟩
  refine .bind hask fun ps w hw => ?_
  have hrun : Keeps R P (Run.unlinkAll ps) (onOk fun _ t => P t) :=
    .unlinkAll fun t q hq ht => hremove t q ht (hw.2 q hq)
  exact hrun w hw.1

end Rules

end Keeps

/-! ### Programs that only read -/

/-- The program leaves the tree as it is. -/
def ReadOnly (m : Run ε α) : Prop := ∀ w, (eval m w).2.tree = w.tree

section ReadOnly

variable {m : Run ε α}

theorem ReadOnly.pure (a : α) : ReadOnly (pure a : Run ε α) := fun _ => rfl

theorem ReadOnly.throw (e : ε) : ReadOnly (throw e : Run ε α) := fun _ => rfl

theorem ReadOnly.bind {f : α → Run ε β} (hm : ReadOnly m) (hf : ∀ a, ReadOnly (f a)) :
    ReadOnly (m >>= f) := by
  intro w
  have hfirst := hm w
  rw [eval_bind]
  rcases heval : eval m w with ⟨_ | a, u⟩
  · rw [heval] at hfirst
    exact hfirst
  · rw [heval] at hfirst
    exact (hf a u).trans hfirst

theorem ReadOnly.attempt (h : ReadOnly m) : ReadOnly (attempt m : Run ε' (Except ε α)) := h

theorem ReadOnly.adapt (f : ε → ε') (h : ReadOnly m) : ReadOnly (ExceptT.adapt f m) := h

theorem ReadOnly.query (ask : Tree → Except IoError α) : ReadOnly (query ask) := by
  intro w
  have hkeeps : Keeps Eq (fun _ => True) (Run.query ask) fun _ _ => True :=
    .query (fun _ _ => trivial) fun _ _ _ => trivial
  exact (hkeeps w trivial).1.symm

/-- What only reads does not show after a program. -/
theorem ReadOnly.after {f : α → Run ε β} (hf : ∀ a, ReadOnly (f a)) (w : World) :
    (eval (m >>= f) w).2.tree = (eval m w).2.tree := by
  rw [eval_bind]
  rcases eval m w with ⟨_ | a, u⟩
  · rfl
  · exact hf a u

theorem ReadOnly.keeps {R : Tree → Tree → Prop} [IsPreorder Tree R] {P : Tree → Prop}
    (h : ReadOnly m) : Keeps R P m (onOk fun _ t => P t) := by
  intro w hw
  rw [h w]
  refine ⟨refl_of R _, ?_⟩
  cases (eval m w).1 with
  | error e => trivial
  | ok a => exact hw

end ReadOnly

/-! ### What the next operations meet -/

end Run

/-- The fault that the `k`-th of the next operations meets. -/
def World.fault (w : World) (k : ℕ) : Option Fault := w.faults[k]?.join

/-- The world after one operation that leaves the tree `t`. -/
def World.next (w : World) (t : Tree) : World := ⟨t, w.faults.tail⟩

@[simp] theorem World.next_tree (w : World) (t : Tree) : (w.next t).tree = t := rfl

@[simp] theorem World.fault_next (w : World) (t : Tree) (k : ℕ) :
    (w.next t).fault k = w.fault (k + 1) := by
  unfold World.fault World.next
  rw [List.getElem?_tail]

namespace Run

theorem eval_fallible_met (act : Tree → Except IoError (α × Tree)) (cut : ℕ → Tree → Tree)
    (w : World) : eval (fallible act cut) w = match w.fault 0 with
      | some e => (.error (.other e.text), w.next (cut e.progress w.tree))
      | none => match act w.tree with
        | .error e => (.error e, w.next w.tree)
        | .ok (a, t) => (.ok a, w.next t) := by
  unfold World.fault
  rw [← List.head?_eq_getElem?]
  rfl

theorem eval_query_met (ask : Tree → Except IoError α) (w : World) :
    eval (query ask) w = (match w.fault 0 with
      | some e => .error (.other e.text)
      | none => ask w.tree, w.next w.tree) := by
  rw [query, eval_fallible_met]
  cases w.fault 0 with
  | some e => rfl
  | none =>
    show (match (ask w.tree).map (·, w.tree) with
      | .error e => (.error e, w.next w.tree)
      | .ok (a, t) => (.ok a, w.next t)) = (ask w.tree, w.next w.tree)
    cases ask w.tree <;> rfl

/-! ### What a program does where nothing fails -/

theorem eval_fallible (act : Tree → Except IoError (α × Tree)) (cut : ℕ → Tree → Tree) (t : Tree) :
    eval (fallible act cut) ⟨t, []⟩ = match act t with
      | .error e => (.error e, ⟨t, []⟩)
      | .ok (a, u) => (.ok a, ⟨u, []⟩) := rfl

theorem eval_query {ask : Tree → Except IoError α} {a : α} {t : Tree} (h : ask t = .ok a) :
    eval (query ask) ⟨t, []⟩ = (.ok a, ⟨t, []⟩) := by
  rw [query, eval_fallible, h]
  rfl

section CreateDirAll

variable {t : Tree} {dir : Path} {name : FileName}

theorem eval_createDir (h : t.Straight [] dir) : eval (createDir (dir ++ [name])) ⟨t, []⟩ =
    match t.node (dir ++ [name]) with
    | none => (.ok (), ⟨t.put (dir ++ [name]) .dir, []⟩)
    | some _ => (.error .alreadyExists, ⟨t, []⟩) := by
  rw [createDir, change, eval_fallible, Tree.makeDir, Tree.locate_straight h]
  simp only [Except.bind]
  cases t.node (dir ++ [name]) <;> rfl

theorem eval_createDir_missing (h : t.Plain [] dir) (hs : ¬ t.Straight [] dir) :
    eval (createDir (dir ++ [name])) ⟨t, []⟩ = (.error .notFound, ⟨t, []⟩) := by
  rw [createDir, change, eval_fallible, Tree.makeDir, Tree.locate_missing h hs]
  rfl

theorem eval_orIsDir {p : Path} (h : t.Straight [] p) (e : IoError) :
    eval (orIsDir p e) ⟨t, []⟩ = (.ok (), ⟨t, []⟩) := by
  have hmeta : eval (metadata p) ⟨t, []⟩ = (.ok .dir, ⟨t, []⟩) := by
    rw [metadata, query, eval_fallible, Tree.resolve_straight h]
    simp only [Except.bind, Tree.nodeAt, Tree.node_of_straight h, Except.map]
  simp only [orIsDir, isDir, eval_bind, eval_attempt, hmeta, eval_pure, Node.isDir, if_true]

/-- The directory at the end, once those above it are there. -/
theorem eval_createLast (h : t.Straight [] dir) (hname : name ≠ "..")
    (hnode : t.node (dir ++ [name]) = some .dir ∨ t.node (dir ++ [name]) = none) :
    ∃ r u, eval (createDir (dir ++ [name])) ⟨t, []⟩ = (r, ⟨u, []⟩) ∧
      (r = .ok () ∨ r = .error .alreadyExists) ∧ u.Straight [] (dir ++ [name]) ∧
      ∀ q, ¬ q <+: dir ++ [name] → u.node q = t.node q := by
  rw [eval_createDir h]
  rcases hnode with hnode | hnode
  · rw [hnode]
    exact ⟨_, t, rfl, .inr rfl, Tree.straight_append.mpr ⟨h, hname, hnode, trivial⟩,
      fun _ _ => rfl⟩
  · rw [hnode]
    exact ⟨_, _, rfl, .inl rfl, h.put hname,
      fun q hq => Tree.node_put_of_ne fun he => hq (he ▸ List.prefix_rfl)⟩

/-- Directories that are there or can be made. -/
theorem eval_createDirAllRev {names : List FileName} (h : t.Plain [] names.reverse) :
    ∃ u, eval (createDirAllRev names) ⟨t, []⟩ = (.ok (), ⟨u, []⟩) ∧ u.Straight [] names.reverse ∧
      ∀ q, ¬ q <+: names.reverse → u.node q = t.node q := by
  induction names generalizing t with
  | nil => exact ⟨t, rfl, trivial, fun _ _ => rfl⟩
  | cons name above ih =>
    rw [List.reverse_cons] at h ⊢
    obtain ⟨habove, hname, hnode, -⟩ := Tree.plain_append.mp h
    rw [List.nil_append] at hnode
    by_cases hs : t.Straight [] above.reverse
    · obtain ⟨r, u, hu, hr, hus, hsame⟩ := eval_createLast hs hname hnode
      refine ⟨u, ?_, hus, hsame⟩
      rcases hr with rfl | rfl
      · simp only [createDirAllRev, eval_bind, eval_attempt, hu, eval_pure]
      · simp only [createDirAllRev, eval_bind, eval_attempt, hu, eval_orIsDir hus]
    · obtain ⟨u, hu, hus, hsame⟩ := ih habove
      have hlast : u.node (above.reverse ++ [name]) = t.node (above.reverse ++ [name]) :=
        hsame _ fun hle => absurd hle.length_le (by simp)
      obtain ⟨r, v, hv, hr, hvs, hvsame⟩ := eval_createLast hus hname (hlast ▸ hnode)
      refine ⟨v, ?_, hvs, fun q hq => ?_⟩
      · have hmissing : eval (createDir (above.reverse ++ [name])) ⟨t, []⟩ =
            (.error .notFound, ⟨t, []⟩) := eval_createDir_missing habove hs
        rcases hr with rfl | rfl
        · simp only [createDirAllRev, eval_bind, eval_attempt, hmissing, hu, hv, eval_pure]
        · simp only [createDirAllRev, eval_bind, eval_attempt, hmissing, hu, hv, eval_orIsDir hvs]
      · rw [hvsame q hq, hsame q fun hle => hq (hle.trans (List.prefix_append _ _))]

/-- A plain path is made into directories, and nothing else is touched. -/
theorem eval_createDirAll {p : Path} (h : t.Plain [] p) :
    ∃ u, eval (createDirAll p) ⟨t, []⟩ = (.ok (), ⟨u, []⟩) ∧ u.Straight [] p ∧
      ∀ q, ¬ q <+: p → u.node q = t.node q := by
  have hplain : t.Plain [] p.reverse.reverse := by
    rw [List.reverse_reverse]
    exact h
  obtain ⟨u, hu, hs, hsame⟩ := eval_createDirAllRev hplain
  rw [List.reverse_reverse] at hs hsame
  exact ⟨u, hu, hs, hsame⟩

end CreateDirAll

/-- A new file in a directory that is there. -/
theorem eval_writeFile {t : Tree} {dir : Path} {name : FileName} (h : t.Straight [] dir)
    (hname : name ≠ "..") (hnone : t.node (dir ++ [name]) = none) (bytes : Bytes) :
    eval (writeFile (dir ++ [name]) bytes) ⟨t, []⟩ =
      (.ok (), ⟨(t.put (dir ++ [name]) (.file [])).put (dir ++ [name]) (.file bytes), []⟩) := by
  have hopen : eval (openTruncate (dir ++ [name])) ⟨t, []⟩ =
      (.ok (dir ++ [name]), ⟨t.put (dir ++ [name]) (.file []), []⟩) := by
    rw [openTruncate, change, eval_fallible, Tree.truncate_new h hname hnone]
  have hnode : (t.put (dir ++ [name]) (.file [])).node (dir ++ [name]) = some (.file []) :=
    Tree.node_put_self (by simp)
  rw [writeFile, eval_bind, hopen]
  simp only [writeAll, eval_fallible, Tree.spliceAt, hnode]
  simp [Tree.splice]

theorem eval_rename {t u : Tree} {p q : Path} (h : t.move p q = .ok ((), u)) :
    eval (rename p q) ⟨t, []⟩ = (.ok (), ⟨u, []⟩) := by
  rw [rename, change, eval_fallible, h]

end Run
end FileTree
