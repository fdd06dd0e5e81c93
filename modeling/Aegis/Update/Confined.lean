import Aegis.Update.Atomic
import Aegis.Update.Offered

/-! What the daemon writes for an update stays below its working directory: the transport takes no
location that leads out of the directory of images, and artifacts are installed at their
locations. -/
namespace Aegis
open Text OsPath Disk

/-! ### Locations as octets and as characters -/

theorem val_of_mem_utf8EncodeChar {b : UInt8} {c : Char} (h : b ∈ String.utf8EncodeChar c)
    (hb : b.toNat < 128) : c.val.toNat = b.toNat := by
  unfold String.utf8EncodeChar at h
  dsimp only at h
  split_ifs at h
  all_goals
    simp only [List.mem_cons, List.not_mem_nil, or_false, ← UInt8.toNat_inj,
      UInt8.toNat_ofNat'] at h
    omega

theorem splitOnP_append_of_sepFree {α : Type} {sep : α → Bool} {xs : List α}
    (hxs : ∀ x ∈ xs, sep x = false) (ys : List α) :
    (xs ++ ys).splitOnP sep = (ys.splitOnP sep).modifyHead (xs ++ ·) := by
  induction xs with
  | nil => exact (congrFun List.modifyHead_id _).symm
  | cons x xs ih =>
    obtain ⟨hx, hxs⟩ := List.forall_mem_cons.mp hxs
    rw [List.cons_append, List.splitOnP_cons_eq_if_modifyHead, if_neg (by simp [hx]), ih hxs,
      List.modifyHead_modifyHead]
    rfl

theorem modifyHead_map {α β : Type} {f : α → β} {g : α → α} {h : β → β}
    (hg : ∀ a, h (f a) = f (g a)) (as : List α) :
    (as.map f).modifyHead h = (as.modifyHead g).map f := by
  cases as with
  | nil => rfl
  | cons a as => rw [List.map_cons, List.modifyHead_cons, List.modifyHead_cons, List.map_cons, hg]

/-- The octets of a text are split where its characters are. -/
theorem splitOnP_utf8 (cs : List Char) :
    (utf8 cs).splitOnP (isSepByte .unix) = (cs.splitOn '/').map utf8 := by
  induction cs with
  | nil => rfl
  | cons c cs ih =>
    have hcons : utf8 (c :: cs) = String.utf8EncodeChar c ++ utf8 cs := rfl
    rw [List.splitOn, List.splitOnP_cons_eq_if_modifyHead, ← List.splitOn, hcons]
    split_ifs with hc
    · obtain rfl : c = '/' := by simpa using hc
      rw [List.map_cons, ← ih]
      exact List.splitOnP_cons_eq_if_modifyHead .. |>.trans (if_pos rfl)
    · have hfree : ∀ b ∈ String.utf8EncodeChar c, isSepByte .unix b = false := by
        intro b hb
        apply decide_eq_false
        rintro rfl
        have hval := val_of_mem_utf8EncodeChar hb (by decide)
        exact hc (by simpa using Char.ext (UInt32.toNat_inj.mp hval))
      rw [splitOnP_append_of_sepFree hfree, ih]
      exact modifyHead_map (f := utf8) (g := List.cons c) (fun _ => rfl) _

theorem isSep_unix (path : OsStr) : isSep .unix path = isSepByte .unix := rfl

theorem names_unix (path : OsStr) : names .unix path = namesIn (isSepByte .unix) path := by
  rw [names_eq, isSep_unix]
  exact namesIn_afterRoot fun b _ hb => hb

/-- A location that the transport takes is relative and nowhere leads up. -/
theorem FileTransport.resolve_parse {t : FileTransport} {location : String} {path : OsStr}
    (h : t.resolve .unix location = .ok path) :
    (Path.parse location).absolute = false ∧ ['.', '.'] ∉ (Path.parse location).parts := by
  obtain ⟨habs, hup, -⟩ := resolve_eq_ok h
  constructor
  · apply decide_eq_false
    rintro ⟨rest, hrest⟩
    have hslash : utf8 location.toList = slash :: utf8 rest := by
      rw [← hrest]
      rfl
    rw [hslash] at habs
    cases habs
  · intro hmem
    apply hup
    have hsplit : utf8 ['.', '.'] ∈ (utf8 location.toList).splitOnP (isSepByte .unix) := by
      rw [splitOnP_utf8]
      exact List.mem_map_of_mem (List.mem_of_mem_filter hmem)
    have hname : Component.parentDir ∈ names .unix (utf8 location.toList) := by
      rw [names_unix]
      exact List.mem_filterMap.mpr ⟨_, hsplit, rfl⟩
    exact List.mem_of_mem_filter hname

/-! ### What applying changes -/

/-- The path is below the working directory. -/
def Inside (p : Path) : Prop := p.absolute = false ∧ ['.', '.'] ∉ p.parts

instance (p : Path) : Decidable (Inside p) := inferInstanceAs (Decidable (_ ∧ _))

theorem inside_suffixedPath {suffix : FileName} {t : Path} (hsuffix : 2 < suffix.length)
    (ht : Inside t) : Inside (suffixedPath suffix t) := by
  have hname (n : FileName) : ['.', '.'] ≠ n ++ suffix := by
    intro heq
    have hlength := congrArg List.length heq
    simp only [List.length_cons, List.length_nil, List.length_append] at hlength
    omega
  unfold suffixedPath Path.withFileName
  split_ifs
  · refine ⟨ht.1, fun hmem => ?_⟩
    rcases List.mem_append.mp hmem with hmem | hmem
    · exact ht.2 (List.mem_of_mem_dropLast hmem)
    · exact hname _ (List.mem_singleton.mp hmem)
  · refine ⟨ht.1, fun hmem => ?_⟩
    rcases List.mem_append.mp hmem with hmem | hmem
    · exact ht.2 hmem
    · exact hname _ (List.mem_singleton.mp hmem)

namespace SignedUpdateClient

variable {π : Primitives} {c : SignedUpdateClient} {xs : List (Artifact × Turn)} {d : Files}

/-- What is recorded for undoing names paths of the artifacts only. -/
theorem records_names {r : Backup × Turn} (h : r ∈ (c.installAll π xs d).2.1) :
    ∃ x ∈ xs, ∀ b ∈ r.1.backup, b ∈ c.names x.1 := by
  induction xs generalizing d with
  | nil => cases h
  | cons x xs ih =>
    have hone (hr : r ∈ (c.installArtifact π x d).record.toList.map fun r => (r, x.2)) :
        ∃ y ∈ x :: xs, ∀ b ∈ r.1.backup, b ∈ c.names y.1 := by
      obtain ⟨record, hrecord, rfl⟩ := List.mem_map.mp hr
      exact ⟨x, List.mem_cons_self, (record_names (Option.mem_toList.mp hrecord)).2⟩
    cases hc : c.completes π x d with
    | true =>
      rw [installAll_cons_completed hc] at h
      rcases List.mem_append.mp h with h | h
      · exact hone h
      · obtain ⟨y, hy, hb⟩ := ih h
        exact ⟨y, List.mem_cons_of_mem _ hy, hb⟩
    | false =>
      rw [installAll_cons_failed hc] at h
      exact hone h

/-- Applying an update, with its rollback, changes none but the paths of its artifacts. -/
theorem apply_frame {v : VerifiedArtifact} {turn : ℕ → Turn} {p : Path}
    (h : ∀ a ∈ v.artifacts, p ∉ c.names a) : (c.apply π v turn d).2 p = d p := by
  have hall : ∀ x ∈ v.artifacts.mapIdx fun i a => (a, turn i), p ∉ c.names x.1 := by
    intro x hx
    obtain ⟨i, hi, rfl⟩ := List.mem_mapIdx.mp hx
    exact h _ (List.getElem_mem hi)
  have hfiles := installAll_frame (π := π) (d := d) hall
  have hundone := undoAll_frame (π := π) (d := d) hall
  have hrecords : ∀ r ∈ (c.installAll π (v.artifacts.mapIdx fun i a => (a, turn i)) d).2.1,
      r.1.backup ≠ some p := by
    intro r hr hb
    obtain ⟨x, hx, hnames⟩ := records_names hr
    exact hall x hx (hnames p hb)
  rcases hrun : c.installAll π (v.artifacts.mapIdx fun i a => (a, turn i)) d with
    ⟨files, records, done⟩
  rw [hrun] at hfiles hundone hrecords
  unfold SignedUpdateClient.apply
  rw [hrun]
  cases done with
  | true =>
    show records.foldl dropBackup files p = d p
    rw [dropBackups_apply, if_neg]
    · exact hfiles
    · rintro ⟨⟨r, hr, hb, -⟩, -⟩
      exact hrecords r hr hb
  | false =>
    show records.reverse.foldl undo files p = d p
    rw [List.foldl_reverse]
    exact hundone

end SignedUpdateClient

/-! ### The daemon's updates -/

/-- Where an artifact is, by its number in a manifest. -/
def UpdateManifest.locationOf (m : UpdateManifest) (i : ℕ) : String :=
  (m.artifacts[i]?.map Artifact.location).getD ""

/-- What the transport serves for the artifacts of a manifest. -/
def FileTransport.serve (t : FileTransport) (read : ℕ → OsStr → Result Bytes) (m : UpdateManifest)
    (i : ℕ) : Result Bytes :=
  t.fetch .unix (read i) (m.locationOf i)

theorem FileTransport.fetch_eq_ok {os : Os} {t : FileTransport} {read : OsStr → Result Bytes}
    {location : String} {bytes : Bytes} (h : t.fetch os read location = .ok bytes) :
    ∃ path, t.resolve os location = .ok path ∧ read path = .ok bytes := by
  unfold FileTransport.fetch at h
  cases hpath : t.resolve os location with
  | error e =>
    rw [hpath] at h
    cases h
  | ok path =>
    rw [hpath] at h
    exact ⟨path, rfl, h⟩

section Daemon

variable {π : Primitives} {isPoint : Bytes → Bool} {key : Option String} {m : UpdateManifest}
  {info : VersionInfo} {v : VerifiedArtifact} {t : FileTransport}
  {read : ℕ → OsStr → Result Bytes}

theorem updateClient_installDir {c : SignedUpdateClient} (h : updateClient isPoint key = some c) :
    c.installDir = none := by
  unfold updateClient at h
  split at h <;> cases h
  rfl

/-- What verifies is a manifest's, signed with the key and newer, and each of its artifacts was
served with the digest it declares, from a location that the transport takes. -/
theorem verifyUpdate_ok
    (h : verifyUpdate π (updateClient isPoint key) m info (t.serve read m) = .ok v) :
    ∃ c, updateClient isPoint key = some c ∧ c.Signed π m ∧ info.current < m.version ∧
      v = ⟨m.version, m.artifacts⟩ ∧
      ∀ a ∈ v.artifacts, Inside (Path.parse a.location) ∧ ∃ bytes, a.HasDigest π bytes := by
  unfold verifyUpdate at h
  cases hclient : updateClient isPoint key with
  | none =>
    rw [hclient] at h
    cases h
  | some c =>
    rw [hclient] at h
    obtain ⟨hsigned, hnewer, hartifacts⟩ := verify_eq_ok_iff.mp ⟨v, h⟩
    obtain ⟨-, -, rfl⟩ := verify_ok h
    refine ⟨c, rfl, hsigned, hnewer, rfl, fun a ha => ?_⟩
    obtain ⟨i, hi⟩ := List.mem_iff_getElem?.mp ha
    obtain ⟨bytes, hbytes, hdigest⟩ := hartifacts i a hi
    obtain ⟨path, hpath, -⟩ := FileTransport.fetch_eq_ok hbytes
    have hlocation : m.locationOf i = a.location := by simp [UpdateManifest.locationOf, hi]
    rw [hlocation] at hpath
    exact ⟨FileTransport.resolve_parse hpath, bytes, hdigest⟩

end Daemon

end Aegis
