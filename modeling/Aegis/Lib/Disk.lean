import Aegis.Lib.Bytes
import Mathlib.Logic.Function.Basic

/-! Paths by their components, the files below a directory, and what an operation on named paths
can depend on and change. -/
namespace Disk
open Text

abbrev FileName := List Char

/-- A path without its repeated separators and `.` components. -/
structure Path where
  absolute : Bool
  parts : List FileName
  deriving DecidableEq

namespace Path

def parse (s : String) : Path where
  absolute := decide ("/".toList <+: s.toList)
  parts := (s.toList.splitOn '/').filter fun n => n ≠ [] ∧ n ≠ ['.']

/-- The last component, unless it is `..`. -/
def fileName (p : Path) : Option FileName := p.parts.getLast?.filter (· ≠ ['.', '.'])

def parent (p : Path) : Option Path :=
  if p.parts = [] then none else some { p with parts := p.parts.dropLast }

def join (p : Path) (n : FileName) : Path := { p with parts := p.parts ++ [n] }

def withFileName (p : Path) (n : FileName) : Path :=
  if p.fileName.isSome then { p with parts := p.parts.dropLast ++ [n] } else p.join n

end Path

/-- What a path names: a file, or a directory with the files anywhere below it. -/
inductive Node where
  | file (bytes : Bytes)
  | directory (files : List (List FileName × Bytes))
  deriving DecidableEq

/-- Whether a directory is there. -/
def isDir : Option Node → Bool
  | some (.directory _) => true
  | _ => false

namespace Node

/-- Whether a rename may put a node where another one is. -/
def replaces : Node → Option Node → Bool
  | _, none => true
  | file _, some (file _) => true
  | directory _, some (directory []) => true
  | _, _ => false

end Node

theorem Node.file_replaces (bytes : Bytes) (n : Option Node) :
    (Node.file bytes).replaces n = !isDir n := by
  rcases n with _ | _ | _ | _ <;> rfl

theorem Node.replaces_file (n : Node) (bytes : Bytes) :
    n.replaces (some (.file bytes)) = !isDir (some n) := by
  cases n <;> rfl

abbrev Files := Path → Option Node

namespace Files

def set (d : Files) (p : Path) (n : Option Node) : Files := Function.update d p n

@[simp] theorem set_self (d : Files) (p : Path) (n : Option Node) : d.set p n p = n :=
  Function.update_self ..

theorem set_of_ne {p q : Path} (h : q ≠ p) (d : Files) (n : Option Node) : d.set p n q = d q :=
  Function.update_of_ne h ..

@[simp] theorem set_set (d : Files) (p : Path) (m n : Option Node) :
    (d.set p m).set p n = d.set p n :=
  Function.update_idem ..

/-! The operations yield nothing where the system reports an error. -/

def rename (d : Files) (source target : Path) : Option Files :=
  match d source with
  | none => none
  | some n =>
    if source = target then some d
    else if n.replaces (d target) then some ((d.set source none).set target (some n))
    else none

def write (d : Files) (p : Path) (bytes : Bytes) : Option Files :=
  match d p with
  | some (.directory _) => none
  | _ => some (d.set p (some (.file bytes)))

theorem write_eq (d : Files) (p : Path) (bytes : Bytes) :
    d.write p bytes = if isDir (d p) then none else some (d.set p (some (.file bytes))) := by
  unfold write
  rcases d p with _ | _ | _ <;> rfl

def removeFile (d : Files) (p : Path) : Option Files :=
  match d p with
  | some (.file _) => some (d.set p none)
  | _ => none

/-- The files after an attempt to remove one. -/
theorem removeFile_getD (d : Files) (q p : Path) :
    (d.removeFile q).getD d p = if p = q ∧ isDir (d p) = false then none else d p := by
  unfold removeFile
  by_cases hp : p = q
  · subst hp
    rcases hd : d p with _ | _ | _ <;> simp [hd, isDir]
  · rcases hd : d q with _ | _ | _ <;> simp [hp, set_of_ne]

/-- The files of `d` on the paths `S`, those of `e` elsewhere. -/
def overlay (S : List Path) (d e : Files) : Files := fun p => if p ∈ S then d p else e p

section Overlay

variable {S : List Path} {d e : Files} {p q : Path}

theorem overlay_of_mem (h : p ∈ S) : overlay S d e p = d p := if_pos h

theorem overlay_of_notMem (h : p ∉ S) : overlay S d e p = e p := if_neg h

theorem overlay_self : overlay S d d = d := funext fun _ => ite_id _

/-- Files that agree on `S` differ from each other elsewhere only. -/
theorem overlay_of_agree (h : ∀ p ∈ S, e p = d p) : overlay S d e = e := by
  funext p
  by_cases hp : p ∈ S
  · rw [overlay_of_mem hp, h p hp]
  · exact overlay_of_notMem hp

theorem overlay_set (h : p ∈ S) (n : Option Node) :
    (overlay S d e).set p n = overlay S (d.set p n) e := by
  funext r
  by_cases hr : r = p
  · subst hr
    rw [set_self, overlay_of_mem h, set_self]
  · rw [set_of_ne hr]
    by_cases hS : r ∈ S
    · rw [overlay_of_mem hS, overlay_of_mem hS, set_of_ne hr]
    · rw [overlay_of_notMem hS, overlay_of_notMem hS]

/-! An operation on paths of `S` sees and changes nothing outside `S`. -/

theorem rename_overlay (hp : p ∈ S) (hq : q ∈ S) :
    (overlay S d e).rename p q = (d.rename p q).map (overlay S · e) := by
  unfold rename
  rw [overlay_of_mem hp, overlay_of_mem hq]
  cases d p with
  | none => rfl
  | some n =>
    simp only [overlay_set hp, overlay_set hq]
    split_ifs <;> rfl

theorem write_overlay (hp : p ∈ S) (bytes : Bytes) :
    (overlay S d e).write p bytes = (d.write p bytes).map (overlay S · e) := by
  unfold write
  rw [overlay_of_mem hp, overlay_set hp]
  split <;> rfl

theorem removeFile_overlay (hp : p ∈ S) :
    (overlay S d e).removeFile p = (d.removeFile p).map (overlay S · e) := by
  unfold removeFile
  rw [overlay_of_mem hp, overlay_set hp]
  split <;> rfl

end Overlay

end Files
end Disk
