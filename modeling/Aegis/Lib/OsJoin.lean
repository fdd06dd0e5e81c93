import Aegis.Lib.OsPath

/-! Joining a location to a base directory. A root of the location takes the place of the base, and
an unfinished prefix of the base may take in the location. -/
namespace OsPath
open Text

/-! ### The base as a directory -/

/-- A base with a separator behind it. -/
def asDir (os : Os) (base : OsStr) : OsStr :=
  if needSep os base then base ++ [mainSep os] else base

section Location

variable {os : Os} {l : OsStr} (hp : prefixOf os l = none)

include hp

theorem prefixLen_of_none : prefixLen os l = 0 := by
  rw [prefixLen, hp]
  rfl

theorem isSep_of_none : isSep os l = isSepByte os := by
  unfold isSep prefixVerbatim
  rw [hp]
  rfl

theorem names_of_none : names os l = namesIn (isSepByte os) l := by
  rw [names_eq, isSep_of_none hp, prefixLen_of_none hp, List.drop_zero]
  exact namesIn_afterRoot fun b _ hb => hb

theorem hasRoot_of_none : hasRoot os l = l.head?.any (isSepByte os) := by
  rw [hasRoot, hasPhysicalRoot, hp, prefixLen_of_none hp, List.drop_zero]
  exact Bool.or_false _

end Location

section SamePrefix

variable {os : Os} {base t : OsStr}
  (h : prefixOf os (base.take (prefixLen os base) ++ t) = prefixOf os base)

include h

theorem prefixLen_congr :
    prefixLen os (base.take (prefixLen os base) ++ t) = prefixLen os base := by
  unfold prefixLen at h ⊢
  rw [h]

theorem drop_prefix : (base.take (prefixLen os base) ++ t).drop
    (prefixLen os (base.take (prefixLen os base) ++ t)) = t := by
  rw [prefixLen_congr h]
  apply List.drop_left'
  rw [List.length_take, Nat.min_eq_left (prefixLen_le os base)]

theorem isSep_congr : isSep os (base.take (prefixLen os base) ++ t) = isSep os base := by
  unfold isSep prefixVerbatim
  rw [h]

theorem names_take_append : names os (base.take (prefixLen os base) ++ t) =
    namesIn (isSep os base) (afterRoot os t) := by
  rw [names_eq, isSep_congr h, drop_prefix h]

theorem hasRoot_take_append : hasRoot os (base.take (prefixLen os base) ++ t) =
    (t.head?.any (isSepByte os) || (prefixOf os base).any Prefix.hasImplicitRoot) := by
  rw [hasRoot, hasPhysicalRoot, drop_prefix h, h]

end SamePrefix

theorem isSep_of_plain {os : Os} {base : OsStr} (h : prefixVerbatim os base = false) :
    isSep os base = isSepByte os := by
  unfold isSep
  rw [h]
  rfl

/-- The separator that is missing behind a base. -/
def joint (os : Os) (base : OsStr) : OsStr := if needSep os base then [mainSep os] else []

theorem asDir_append (os : Os) (base l : OsStr) : asDir os base ++ l =
    base.take (prefixLen os base) ++ (base.drop (prefixLen os base) ++ joint os base ++ l) := by
  rw [← List.append_assoc, ← List.append_assoc, List.take_append_drop]
  unfold asDir joint
  split_ifs
  · rfl
  · rw [List.append_nil]

/-- Where no separator is missing, the base ends in one or is all prefix. -/
theorem joint_eq_nil {os : Os} {base : OsStr} (h : joint os base = []) :
    (base.drop (prefixLen os base)).getLast?.all (isSepByte os) = true := by
  unfold joint at h
  split_ifs at h with hneed
  rw [List.getLast?_drop]
  split_ifs with hlen
  · rfl
  · have hne : ¬ prefixLen os base = base.length := fun he => hlen (by omega)
    unfold needSep at hneed
    cases hb : base.getLast? with
    | none => rfl
    | some b => simpa [hb, hne] using hneed

/-- A base without an implicit root that is all prefix is empty or a bare drive. -/
theorem joint_of_drop_nil {os : Os} {base : OsStr} (h : base.drop (prefixLen os base) = [])
    (himplicit : (prefixOf os base).any Prefix.hasImplicitRoot = false) : joint os base = [] := by
  have hlen : prefixLen os base = base.length :=
    le_antisymm (prefixLen_le os base) (List.drop_eq_nil_iff.mp h)
  unfold joint
  apply if_neg
  unfold needSep
  cases hp : prefixOf os base with
  | none =>
    rw [prefixLen_of_none hp] at hlen
    rw [List.length_eq_zero_iff.mp hlen.symm]
    simp
  | some p =>
    rw [hp] at himplicit
    have hdrive : p.isDrive = true := by simpa [Prefix.hasImplicitRoot] using himplicit
    simp [hdrive, hlen]

theorem isSep_mainSep (os : Os) (path : OsStr) : isSep os path (mainSep os) = true := by
  cases os with
  | unix => rfl
  | windows =>
    unfold isSep
    split_ifs <;> rfl

theorem joint_cases (os : Os) (base : OsStr) :
    joint os base = [] ∨ joint os base = [mainSep os] := by
  unfold joint
  split_ifs
  · exact .inr rfl
  · exact .inl rfl

/-- The names of a location come behind those of a base that is not verbatim. -/
theorem namesIn_joint {os : Os} {base : OsStr} (h : prefixVerbatim os base = false) (l : OsStr) :
    namesIn (isSepByte os) (base.drop (prefixLen os base) ++ joint os base ++ l) =
      namesIn (isSepByte os) (base.drop (prefixLen os base)) ++ namesIn (isSepByte os) l := by
  have hsep : isSepByte os (mainSep os) = true := by
    rw [← isSep_of_plain h]
    exact isSep_mainSep os base
  rcases joint_cases os base with hnil | hcons
  · rw [hnil, List.append_nil, namesIn_append (joint_eq_nil hnil)]
  · rw [hcons, List.append_assoc, List.singleton_append, namesIn_append_cons hsep]

theorem namesIn_afterRoot_joint (os : Os) (base : OsStr) :
    namesIn (isSep os base)
        (afterRoot os (base.drop (prefixLen os base) ++ joint os base)) =
      namesIn (isSep os base) (afterRoot os (base.drop (prefixLen os base))) := by
  rcases joint_cases os base with hnil | hcons
  · rw [hnil, List.append_nil]
  · rw [hcons]
    cases hrest : base.drop (prefixLen os base) with
    | nil =>
      have hroot : afterRoot os [mainSep os] = [] := by cases os <;> rfl
      rw [List.nil_append, hroot]
      rfl
    | cons b rest =>
      rw [afterRoot_append (by simp), namesIn_append_cons (isSep_mainSep os base), namesIn_nil,
        List.append_nil]

/-- A relative location leads below the base as long as the base's prefix is still read. -/
theorem below_asDir {os : Os} {base l : OsStr} (hp : prefixOf os l = none)
    (hr : hasRoot os l = false) (hup : .parentDir ∉ names os l)
    (hplain : prefixVerbatim os base = false ∨ l = [])
    (h : prefixOf os (asDir os base ++ l) = prefixOf os base) :
    Below os base (asDir os base ++ l) := by
  rw [hasRoot_of_none hp] at hr
  rw [asDir_append] at h ⊢
  refine ⟨h, ?_, ?_⟩
  · rw [hasRoot_take_append h, hasRoot, hasPhysicalRoot]
    cases himplicit : (prefixOf os base).any Prefix.hasImplicitRoot with
    | true => rw [Bool.or_true, Bool.or_true]
    | false =>
      rw [Bool.or_false, Bool.or_false]
      cases hrest : base.drop (prefixLen os base) with
      | nil =>
        rw [joint_of_drop_nil hrest himplicit]
        exact hr
      | cons b rest => rfl
  · refine ⟨names os l, ?_, hup⟩
    rw [names_take_append h, names_eq os base]
    rcases hplain with hplain | rfl
    · rw [isSep_of_plain hplain, names_of_none hp, namesIn_afterRoot fun b _ hb => hb,
        namesIn_afterRoot fun b _ hb => hb, namesIn_joint hplain]
    · rw [List.append_nil, namesIn_afterRoot_joint, names_of_none hp, namesIn_nil, List.append_nil]

/-- A rooted location leads to what it names behind the base's prefix. -/
theorem below_rooted_iff {os : Os} {base l : OsStr} (hp : prefixOf os l = none)
    (hr : hasRoot os l = true) (hup : .parentDir ∉ names os l)
    (hplain : prefixVerbatim os base = false)
    (h : prefixOf os (base.take (prefixLen os base) ++ l) = prefixOf os base) :
    Below os base (base.take (prefixLen os base) ++ l) ↔
      hasRoot os base = true ∧ names os base <+: names os l := by
  have hroot : hasRoot os (base.take (prefixLen os base) ++ l) = true := by
    rw [hasRoot_of_none hp] at hr
    rw [hasRoot_take_append h, hr, Bool.true_or]
  have hnames : names os (base.take (prefixLen os base) ++ l) = names os l := by
    rw [names_take_append h, isSep_of_plain hplain, namesIn_afterRoot fun b _ hb => hb,
      names_of_none hp]
  unfold Below
  rw [hroot, hnames]
  constructor
  · rintro ⟨-, hbase, rest, hrest, -⟩
    exact ⟨hbase.symm, rest, hrest.symm⟩
  · rintro ⟨hbase, rest, hrest⟩
    refine ⟨h, hbase.symm, rest, hrest.symm, fun hmem => hup ?_⟩
    rw [← hrest]
    exact List.mem_append_right _ hmem

/-! ### Unfinished prefixes -/

/-- The base lacks the end of a prefix, and the location is read as part of it. -/
def Absorbs (os : Os) (base l : OsStr) : Prop :=
  match prefixOf os base with
  | none => Begins "\\\\" base ∧ hasRoot os l = false ∧ prefixOf os (asDir os base ++ l) ≠ none
  | some (.deviceNs name) => name = [] ∧ base.length = 4 ∧ hasRoot os l = false ∧ l ≠ []
  | some (.verbatim name) =>
    name = ascii "UNC" ∧ (l = [] ∨ hasRoot os l = true ∨ names os l ≠ [])
  | some (.verbatimUnc _ share) =>
    share = [] ∧ l ≠ [] ∧ (names os l ≠ [] ∨ hasRoot os l = false ∧ body os base ≠ [])
  | some (.verbatimDisk _) | some (.unc _ _) | some (.disk _) => False

theorem prefixLen_of_some {base : OsStr} {p : Prefix} (h : parsePrefix base = some p) :
    prefixLen .windows base = p.len := by
  rw [prefixLen, prefixOf, h]
  rfl

theorem Next.drop {verbatim : Bool} {path n t : OsStr} {k : ℕ}
    (h : Next verbatim (path.drop k) n t) : path.drop (k + n.length) = t := by
  rw [← List.drop_drop, h.eq, List.drop_left]

theorem drop_unc {verbatim : Bool} {path server share t u : OsStr} {k : ℕ}
    (hserver : Next verbatim (path.drop k) server t) (hshare : Next verbatim (t.drop 1) share u)
    (hne : share ≠ []) : path.drop (k + Prefix.uncLen server share) = u := by
  obtain ⟨c, -, rfl⟩ := next_share hserver hshare hne
  rw [Prefix.uncLen, if_neg hne, ← Nat.add_assoc, ← List.drop_drop, hserver.drop, Nat.add_comm 1,
    List.drop_succ_cons, List.drop_left]

theorem drop_unc_nil {verbatim : Bool} {path server t : OsStr} {k : ℕ}
    (hserver : Next verbatim (path.drop k) server t) :
    path.drop (k + Prefix.uncLen server []) = t :=
  hserver.drop

/-- Behind a prefix there is nothing or a separator. -/
theorem Spells.closes {base : OsStr} {p : Prefix} (h : Spells base p) (hp : p.isDrive = false) :
    Closes p.endsVerbatim (base.drop p.len) := by
  cases h with
  | verbatimUnc h hunc hserver hshare =>
    rename_i server share t u
    by_cases hne : share = []
    · subst hne
      exact (drop_unc_nil hserver).symm ▸ hserver.closes
    · exact (drop_unc hserver hshare hne).symm ▸ hshare.closes
  | verbatimDisk h hunc hdrive =>
    obtain ⟨d, rest, hd, hcloses, -⟩ := parseDriveExact_eq_some hdrive
    have hrest : base.drop (4 + 2) = rest := by
      rw [← List.drop_drop, hd]
      rfl
    exact hrest.symm ▸ hcloses
  | verbatim h hunc hdrive hname => exact hname.drop.symm ▸ hname.closes
  | deviceNs h hdevice hname => exact hname.drop.symm ▸ hname.closes
  | unc h hdevice hbegins hserver hshare hne hne' =>
    exact (drop_unc hserver hshare hne').symm ▸ hshare.closes
  | disk hbegins hdrive => cases hp

theorem closes_of_true {verbatim : Bool} {t : OsStr} (h : Closes true t) : Closes verbatim t := by
  cases t with
  | nil => rfl
  | cons b t =>
    obtain rfl := closes_true_cons h
    cases verbatim <;> rfl

theorem closes_joint (verbatim : Bool) (base : OsStr) : Closes verbatim (joint .windows base) := by
  rcases joint_cases .windows base with h | h
  · rw [h]
    rfl
  · rw [h]
    cases verbatim <;> rfl

theorem Closes.append_of {verbatim : Bool} {t u : OsStr} (ht : Closes verbatim t)
    (hu : t = [] → Closes verbatim u) : Closes verbatim (t ++ u) := by
  cases t with
  | nil => exact hu rfl
  | cons b t => exact ht

/-- A base that ends in a name lacks a separator. -/
theorem joint_of_name {base pre name : OsStr} {k : ℕ} (h : base.drop k = pre ++ name)
    (hne : name ≠ []) (hfree : ∀ b ∈ name, isSepByte .windows b = false)
    (hdrive : (prefixOf .windows base).any Prefix.isDrive = false) :
    joint .windows base = [backslash] := by
  have hlast : ∃ b ∈ name, base.getLast? = some b := by
    refine ⟨name.getLast hne, List.getLast_mem hne, ?_⟩
    rw [← List.take_append_drop k base, h, ← List.append_assoc, List.getLast?_append,
      List.getLast?_eq_some_getLast hne]
    rfl
  obtain ⟨b, hb, hlast⟩ := hlast
  apply if_pos
  unfold needSep
  rw [hlast, hdrive, Option.any_some, hfree b hb]
  rfl

theorem not_spells_unc {path t : OsStr} (h : Spells path (.verbatim (ascii "UNC")))
    (ht : path.drop 4 = ascii "UNC" ++ backslash :: t) : False := by
  cases h with
  | verbatim h hunc hdrive hname =>
    apply hunc
    rw [begins_unc_iff h, ht]
    exact ⟨t.map normalByte, rfl⟩

/-- A base of a verbatim prefix without the name of a server is all prefix. -/
theorem drop_of_unc {base : OsStr} (h : Spells base (.verbatim (ascii "UNC"))) :
    base.drop 4 = ascii "UNC" := by
  cases hs : h with
  | verbatim h' hunc hdrive hname =>
    rename_i t
    have heq := hname.eq
    have hcloses := hname.closes
    cases t with
    | nil => rwa [List.append_nil] at heq
    | cons b t =>
      obtain rfl := closes_true_cons hcloses
      exact (not_spells_unc h heq).elim

theorem endsVerbatim_of_plain {p : Prefix} (h : p.isVerbatim = false) : p.endsVerbatim = false := by
  cases p <;> trivial

theorem not_open_of_plain {p : Prefix} (h : p.isVerbatim = false) : ¬ p.Open := by
  cases p with
  | verbatim | verbatimUnc => cases h
  | verbatimDisk | deviceNs | unc | disk => exact not_false

theorem closes_of_rooted {os : Os} {l : OsStr} (hp : prefixOf os l = none)
    (hr : hasRoot os l = true) : l.head?.all (isSepByte os) = true := by
  rw [hasRoot_of_none hp] at hr
  cases l with
  | nil => rfl
  | cons b l => exact hr

theorem prefixOf_rooted {os : Os} {base l : OsStr} (hp : prefixOf os l = none)
    (hr : hasRoot os l = true) (hplain : prefixVerbatim os base = false) :
    prefixOf os (base.take (prefixLen os base) ++ l) = prefixOf os base := by
  cases os with
  | unix => rfl
  | windows =>
    cases hb : prefixOf .windows base with
    | none =>
      rw [prefixLen_of_none hb]
      exact hp
    | some p =>
      have hp' : p.isVerbatim = false := by
        rw [prefixVerbatim, hb] at hplain
        exact hplain
      rw [prefixLen_of_some hb]
      apply Spells.parsePrefix
      apply (spells_of_parsePrefix hb).take_append
      · intro _
        rw [endsVerbatim_of_plain hp']
        exact closes_of_rooted hp hr
      · exact fun hopen => absurd hopen (not_open_of_plain hp')

/-- A path that does not begin with two separators has no prefix but a drive. -/
theorem parsePrefix_eq_none_iff {path : OsStr} (h : ¬ Begins "\\\\" path) :
    parsePrefix path = none ↔ parseDrive path = none := by
  unfold parsePrefix
  rw [if_neg h, Option.map_eq_none_iff]

theorem normalByte_eq_iff {b : UInt8} :
    backslash = normalByte b ↔ isSepByte .windows b = true := by
  have hsep : isSepByte .windows b = true ↔ b = slash ∨ b = backslash := by simp [isSepByte]
  rw [hsep]
  unfold normalByte
  split_ifs with h
  · exact iff_of_true rfl (.inl h)
  · exact ⟨fun he => .inr he.symm, fun he => (he.resolve_left h).symm⟩

theorem begins_two_iff {b c : UInt8} {t : OsStr} : Begins "\\\\" (b :: c :: t) ↔
    isSepByte .windows b = true ∧ isSepByte .windows c = true := by
  have htwo : ascii "\\\\" = [backslash, backslash] := rfl
  unfold Begins
  rw [htwo, List.map_cons, List.map_cons, List.cons_prefix_cons, List.cons_prefix_cons,
    normalByte_eq_iff, normalByte_eq_iff, and_iff_left (List.nil_prefix)]

theorem parseDrive_of_sep {b : UInt8} (h : isSepByte .windows b = true) (t : OsStr) :
    parseDrive (b :: t) = none := by
  have hsep : b = slash ∨ b = backslash := by simpa [isSepByte] using h
  rcases hsep with rfl | rfl
  · cases t with
    | nil => rfl
    | cons c t =>
      rw [parseDrive_cons]
      exact if_neg fun h => absurd h.2 (by decide)
  · exact parseDrive_backslash t

/-- A base that does not begin with two separators takes in no location. -/
theorem parsePrefix_asDir {base l : OsStr} (hp : parsePrefix l = none)
    (hr : l.head?.any (isSepByte .windows) = false) (hbase : parsePrefix base = none)
    (h : ¬ Begins "\\\\" base) : parsePrefix (asDir .windows base ++ l) = none := by
  match base with
  | [] => exact hp
  | [b] =>
    by_cases hb : isSepByte .windows b = true
    · have hdir : asDir .windows [b] = [b] := by simp [asDir, needSep, hb]
      rw [hdir, List.singleton_append, parsePrefix_eq_none_iff, parseDrive_of_sep hb]
      cases l with
      | nil => exact fun h => absurd h.length_le (by simp [ascii])
      | cons c l => exact fun h => absurd (begins_two_iff.mp h).2 (by simpa using hr)
    · have hdir : asDir .windows [b] = [b, backslash] := by
        have hone : prefixOf .windows [b] = none := hbase
        simp [asDir, needSep, hb, hone, mainSep]
      rw [hdir, List.cons_append, List.singleton_append, parsePrefix_eq_none_iff,
        parseDrive_cons_backslash]
      exact fun h => absurd (begins_two_iff.mp h).1 hb
  | b :: c :: base =>
    have hnext : ∃ t, asDir .windows (b :: c :: base) ++ l = b :: c :: t := by
      unfold asDir
      split_ifs <;> exact ⟨_, rfl⟩
    obtain ⟨t, ht⟩ := hnext
    have hnot : ¬ Begins "\\\\" (b :: c :: t) := by
      rw [begins_two_iff] at h ⊢
      exact h
    rw [parsePrefix_eq_none_iff h] at hbase
    rw [ht, parsePrefix_eq_none_iff hnot]
    exact hbase

/-- A prefix with all its parts is read again with a separator behind the base. -/
theorem Spells.asDir {base : OsStr} {p : Prefix} (h : Spells base p) (hopen : ¬ p.Open) :
    Spells (base.take p.len ++ (base.drop p.len ++ joint .windows base ++ [])) p := by
  rw [List.append_nil]
  apply h.take_append
  · exact fun hdrive => (h.closes hdrive).append_of fun _ => closes_joint _ base
  · exact fun ho => absurd ho hopen

/-- A prefix with a last name is read again with a location behind the base. -/
theorem Spells.asDir_append {base name : OsStr} {p : Prefix} (h : Spells base p)
    (hopen : ¬ p.Open) (hdrive : p.isDrive = false)
    (hname : base.drop p.len = [] → ∃ k pre, base.drop k = pre ++ name) (hne : name ≠ [])
    (hfree : ∀ b ∈ name, isSepByte .windows b = false) (l : OsStr) :
    Spells (base.take p.len ++ (base.drop p.len ++ joint .windows base ++ l)) p := by
  have hdrive' : (prefixOf .windows base).any Prefix.isDrive = false := by
    rw [prefixOf, h.parsePrefix]
    exact hdrive
  apply h.take_append
  · intro _
    rw [List.append_assoc]
    apply (h.closes hdrive).append_of
    intro hnil
    obtain ⟨k, pre, hname⟩ := hname hnil
    rw [joint_of_name hname hne hfree hdrive']
    cases p.endsVerbatim <;> rfl
  · exact fun ho => absurd ho hopen

/-- Without a share, a prefix is read again unless a name comes next. -/
theorem spells_unc_nil_iff {base server w : OsStr} (h : Spells base (.verbatimUnc server []))
    (hw : Closes true w) :
    Spells (base.take (Prefix.verbatimUnc server []).len ++ w) (.verbatimUnc server []) ↔
      Closes true (w.drop 1) := by
  have hle := h.len_le
  have hlen : (Prefix.verbatimUnc server []).len = 8 + server.length := rfl
  rw [hlen] at hle ⊢
  cases h with
  | verbatimUnc h hunc hserver hshare =>
    rename_i t u
    have htake : ∀ k ≤ 8, (base.take (8 + server.length) ++ w).take k = base.take k :=
      fun k hk => take_append_take (by omega) hle
    have hdrop : (base.take (8 + server.length) ++ w).drop 8 = server ++ w := by
      rw [drop_append_take (by omega) hle, Nat.add_sub_cancel_left, hserver.eq, List.take_left]
    constructor
    · intro hs
      cases hs with
      | verbatimUnc h' hunc' hserver' hshare' =>
        rename_i t' u'
        have heq := hserver'.eq
        rw [hdrop] at heq
        obtain rfl := List.append_cancel_left heq
        have hrest : w.drop 1 = u' := hshare'.eq
        exact hrest.symm ▸ hshare'.closes
    · intro hclose
      refine .verbatimUnc (t := w) (u := w.drop 1) ((isVerbatim_congr (htake 4 (by decide))).mpr h)
        ((begins_congr (by decide) (htake 8 le_rfl)).mpr hunc) ?_ ⟨rfl, nofun, hclose⟩
      rw [hdrop]
      exact ⟨rfl, hserver.sepFree, hw⟩

/-- An empty device name is completed by what comes next. -/
theorem spells_device_nil_iff {base l : OsStr} (h : Spells base (.deviceNs []))
    (hlen : base.length = 4) (hhead : l.head?.any (isSepByte .windows) = false) :
    Spells (base.take 4 ++ (base.drop 4 ++ joint .windows base ++ l)) (.deviceNs []) ↔ l = [] := by
  have hall : base.take 4 = base := List.take_of_length_le hlen.le
  have hrest : base.drop 4 = [] := List.drop_eq_nil_of_le hlen.le
  have hjoint : joint .windows base = [] := by
    cases h with
    | deviceNs h hdevice hname =>
      match base, hlen with
      | [a, b, c, d], _ =>
        have hlast : isSepByte .windows d = true := by
          have hd := (List.cons_prefix_cons.mp (List.cons_prefix_cons.mp
            (List.cons_prefix_cons.mp (List.cons_prefix_cons.mp hdevice).2).2).2).1
          exact normalByte_eq_iff.mp hd
        apply if_neg
        simp [needSep, hlast]
  rw [hall, hrest, hjoint, List.nil_append, List.nil_append]
  constructor
  · intro hs
    cases hs with
    | deviceNs h hdevice hname =>
      rename_i t
      have heq := hname.eq
      rw [List.drop_append_of_le_length hlen.ge, hrest, List.nil_append, List.nil_append] at heq
      have hcloses := hname.closes
      rw [← heq] at hcloses
      cases l with
      | nil => rfl
      | cons b l => exact absurd hcloses (by simpa [Closes, prefixSep] using hhead)
  · rintro rfl
    rw [List.append_nil]
    exact h

/-- Whether the base's prefix is still read with a relative location behind the base. -/
theorem prefixOf_asDir_iff {os : Os} {base l : OsStr} (hp : prefixOf os l = none)
    (hr : hasRoot os l = false) (hplain : prefixVerbatim os base = false ∨ l = []) :
    prefixOf os (asDir os base ++ l) = prefixOf os base ↔ ¬ Absorbs os base l := by
  cases os with
  | unix => exact iff_of_true rfl fun h => h.2.2 rfl
  | windows =>
    have hhead := hr
    rw [hasRoot_of_none hp] at hhead
    cases hb : prefixOf .windows base with
    | none =>
      unfold Absorbs
      rw [hb]
      by_cases hbegins : Begins "\\\\" base
      · exact ⟨fun h habs => habs.2.2 h, fun h => by_contra fun hne => h ⟨hbegins, hr, hne⟩⟩
      · exact iff_of_true (parsePrefix_asDir hp hhead hb hbegins) fun h => hbegins h.1
    | some p =>
      have hs := spells_of_parsePrefix hb
      have hlen := prefixLen_of_some hb
      have hread : ∀ t, prefixOf .windows t = some p ↔ Spells t p := fun t => parsePrefix_eq_some
      have hempty : p.isVerbatim = true → l = [] := by
        intro hv
        rw [prefixVerbatim, hb, Option.any_some, hv] at hplain
        exact hplain.resolve_left (by decide)
      rw [hread, asDir_append, hlen]
      unfold Absorbs
      rw [hb]
      cases hcase : hs with
      | verbatimUnc h hunc hserver hshare =>
        rename_i server share t u
        obtain rfl := hempty rfl
        apply iff_of_true
        · by_cases hne : share = []
          · subst hne
            have hD : base.drop (Prefix.verbatimUnc server []).len = t := drop_unc_nil hserver
            have hu : t.drop 1 = u := hshare.eq
            rw [List.append_nil, spells_unc_nil_iff hs
              ((hs.closes rfl).append_of fun _ => closes_joint _ base), hD]
            cases t with
            | nil =>
              rcases joint_cases .windows base with hj | hj <;> rw [hj] <;> rfl
            | cons c t =>
              obtain rfl : t = u := hu
              exact hshare.closes.append_of fun _ => closes_joint _ base
          · exact hs.asDir hne
        · exact fun h => h.2.1 rfl
      | verbatimDisk h hunc hdrive =>
        obtain rfl := hempty rfl
        exact iff_of_true (hs.asDir not_false) not_false
      | verbatim h' hunc hdrive hname =>
        rename_i name t
        obtain rfl := hempty rfl
        by_cases hne : name = ascii "UNC"
        · subst hne
          have hbase := drop_of_unc hs
          have hdrive : (prefixOf .windows base).any Prefix.isDrive = false := by rw [hb]; rfl
          have hlast : base.drop 4 = [] ++ ascii "UNC" := hbase
          have hletters : ((ascii "UNC").any (isSepByte .windows)) = false := by decide
          have hfree : ∀ b ∈ ascii "UNC", isSepByte .windows b = false :=
            fun b hb => Bool.eq_false_iff.mpr (List.any_eq_false.mp hletters b hb)
          have hjoint := joint_of_name hlast (by decide) hfree hdrive
          have hfour : 4 ≤ base.length := h'.1.length_le
          refine iff_of_false ?_ (not_not.mpr ⟨rfl, .inl rfl⟩)
          rw [List.append_nil, hjoint, ← List.append_assoc, List.take_append_drop]
          intro h
          apply not_spells_unc (t := []) h
          rw [List.drop_append_of_le_length hfour, hbase]
        · exact iff_of_true (hs.asDir hne) fun h => hne h.1
      | deviceNs h hdevice hname =>
        rename_i name t
        by_cases hne : name = []
        · subst hne
          by_cases hfour : base.length = 4
          · have hiff := spells_device_nil_iff hs hfour hhead
            exact ⟨fun h habs => habs.2.2.2 (hiff.mp h),
              fun h => hiff.mpr (by_contra fun hl => h ⟨rfl, hfour, hr, hl⟩)⟩
          · refine iff_of_true ?_ fun h => hfour h.2.1
            have hrest : base.drop 4 ≠ [] := fun h =>
              hfour (le_antisymm (List.drop_eq_nil_iff.mp h) hs.len_le)
            apply hs.take_append
            · intro _
              rw [List.append_assoc]
              exact (hs.closes rfl).append hrest _
            · exact False.elim
        · refine iff_of_true (hs.asDir_append not_false rfl ?_ hne hname.sepFree l) fun h => hne h.1
          intro hnil
          have ht : t = [] := hname.drop.symm.trans hnil
          exact ⟨4, [], by rw [hname.eq, ht, List.append_nil, List.nil_append]⟩
      | unc h hdevice hbegins hserver hshare hne hne' =>
        rename_i server share t u
        refine iff_of_true (hs.asDir_append not_false rfl ?_ hne' hshare.sepFree l) not_false
        intro hnil
        have hu : u = [] := (drop_unc hserver hshare hne').symm.trans hnil
        obtain ⟨c, -, rfl⟩ := next_share hserver hshare hne'
        refine ⟨2, server ++ [c], ?_⟩
        rw [hserver.eq, hu, List.append_nil, List.append_assoc, List.singleton_append]
      | disk hbegins hdrive =>
        exact iff_of_true (hs.take_append (by rintro ⟨⟩) (by rintro ⟨⟩)) not_false

end OsPath
