import Aegis.Lib.OsJoin

/-! Joining below a verbatim prefix, where components are put together anew, and where joining any
location leads. -/
namespace OsPath
open Text

/-! ### Below a verbatim prefix -/

theorem Prefix.len_pos (p : Prefix) : 0 < p.len := by
  cases p <;> simp only [Prefix.len] <;> omega

/-- A component with its text between backslashes. -/
structure ReadAs (comp : OsStr) (c : Component) : Prop where
  text : ∀ raw, c.asOsStr raw = comp
  sepFree : ∀ b ∈ comp, isVerbatimSep b = false
  ne_nil : comp ≠ []
  name : (nameOf comp).toList = [c].filter Component.isName
  needsSep : c.needsSep = true
  ne_rootDir : c ≠ .rootDir

theorem readAs_of_parse {os : Os} {path comp : OsStr} {c : Component}
    (h : parseSingleComponent os path comp = some c)
    (hfree : ∀ b ∈ comp, isVerbatimSep b = false) : ReadAs comp c := by
  unfold parseSingleComponent at h
  split_ifs at h with hdot hverbatim hup hnil
  · obtain rfl := Option.some.inj h
    subst hdot
    exact ⟨fun _ => rfl, hfree, by decide, rfl, rfl, nofun⟩
  · obtain rfl := Option.some.inj h
    subst hup
    exact ⟨fun _ => rfl, hfree, by decide, rfl, rfl, nofun⟩
  · obtain rfl := Option.some.inj h
    refine ⟨fun _ => rfl, hfree, hnil, ?_, rfl, nofun⟩
    rw [nameOf, if_neg hdot, if_neg hup, if_neg hnil]
    rfl

theorem sepFree_of_mem_splitOnP {sep : UInt8 → Bool} {text comp : OsStr}
    (h : comp ∈ text.splitOnP sep) : ∀ b ∈ comp, sep b = false := by
  induction text generalizing comp with
  | nil =>
    rw [List.splitOnP_nil, List.mem_singleton] at h
    subst h
    nofun
  | cons c text ih =>
    rw [List.splitOnP_cons_eq_if_modifyHead] at h
    obtain ⟨first, rest, hsplit⟩ := List.exists_cons_of_ne_nil (List.splitOnP_ne_nil sep text)
    rw [hsplit] at ih
    split_ifs at h with hc
    · rcases List.mem_cons.mp h with rfl | h
      · nofun
      · exact ih (hsplit ▸ h)
    · rw [hsplit, List.modifyHead_cons] at h
      rcases List.mem_cons.mp h with rfl | h
      · intro b hb
        rcases List.mem_cons.mp hb with rfl | hb
        · exact Bool.eq_false_iff.mpr hc
        · exact ih List.mem_cons_self b hb
      · exact ih (List.mem_cons_of_mem _ h)

/-- The components of a body can be read where only backslashes separate. -/
theorem readAs_of_mem_body {os : Os} {path : OsStr} {c : Component} (h : c ∈ body os path)
    (hsep : ∀ b, isVerbatimSep b = true → isSep os path b = true) : ∃ comp, ReadAs comp c := by
  obtain ⟨comp, hcomp, hparse⟩ := List.mem_filterMap.mp h
  refine ⟨comp, readAs_of_parse hparse fun b hb => ?_⟩
  have hfree := sepFree_of_mem_splitOnP hcomp b hb
  cases hv : isVerbatimSep b with
  | false => rfl
  | true => rw [hsep b hv] at hfree; cases hfree

/-- Components with backslashes before them. -/
def below (raw : OsStr) (cs : List Component) : OsStr :=
  cs.flatMap fun c => backslash :: c.asOsStr raw

section Rendered

variable {raw : OsStr} {cs : List Component} (hcs : ∀ c ∈ cs, ∃ comp, ReadAs comp c)

include hcs

theorem render_true : render raw true cs = below raw cs := by
  induction cs with
  | nil => rfl
  | cons c cs ih =>
    obtain ⟨comp, hc⟩ := hcs c List.mem_cons_self
    rw [render, if_pos ⟨rfl, hc.ne_rootDir⟩, hc.needsSep,
      ih fun d hd => hcs d (List.mem_cons_of_mem _ hd)]
    rfl

/-- Behind the root the first separator is the root's own. -/
theorem render_root : render raw true (.rootDir :: cs) =
    if cs = [] then [backslash] else below raw cs := by
  cases cs with
  | nil => rfl
  | cons c cs =>
    obtain ⟨comp, hc⟩ := hcs c List.mem_cons_self
    have hrest : render raw true cs = below raw cs :=
      render_true fun d hd => hcs d (List.mem_cons_of_mem _ hd)
    rw [render, render, if_neg (by simp), if_neg (by simp [Component.needsSep]), hc.needsSep, hrest,
      if_neg (List.cons_ne_nil c cs)]
    rfl

theorem namesIn_below : namesIn isVerbatimSep (below raw cs) = cs.filter Component.isName := by
  induction cs with
  | nil => exact namesIn_nil
  | cons c cs ih =>
    obtain ⟨comp, hc⟩ := hcs c List.mem_cons_self
    have hrest := ih fun d hd => hcs d (List.mem_cons_of_mem _ hd)
    have htext : below raw (c :: cs) = backslash :: (comp ++ below raw cs) := by
      rw [below, List.flatMap_cons, hc.text raw]
      rfl
    have hsplit : namesIn isVerbatimSep (comp ++ below raw cs) =
        namesIn isVerbatimSep comp ++ namesIn isVerbatimSep (below raw cs) := by
      cases cs with
      | nil => rw [below, List.flatMap_nil, List.append_nil, namesIn_nil, List.append_nil]
      | cons d cs =>
        have hcons : below raw (d :: cs) = backslash :: (d.asOsStr raw ++ below raw cs) := rfl
        rw [hcons, namesIn_append_cons rfl, namesIn_cons rfl]
    rw [htext, namesIn_cons rfl, hsplit, namesIn_of_sepFree hc.sepFree, hc.name, hrest,
      ← List.filter_append]
    rfl

end Rendered

/-- What stands behind the prefix of a verbatim base with a location joined. -/
def kept (os : Os) (base l : OsStr) : List Component :=
  (if hasRoot os l then [] else body os base) ++ names os l

/-- The text of it; a root by itself is a separator. -/
def keptText (os : Os) (base l : OsStr) : OsStr :=
  if kept os base l = [] then
    if hasRoot os l || hasPhysicalRoot os base then [backslash] else []
  else below (base.take (prefixLen os base)) (kept os base l)

theorem foldl_pushComponent {cs : List Component} (h : ∀ c ∈ cs, c.isNormal = true)
    (buf : List Component) : cs.foldl pushComponent buf = buf ++ cs := by
  induction cs generalizing buf with
  | nil => rw [List.foldl_nil, List.append_nil]
  | cons c cs ih =>
    have hpush : pushComponent buf c = buf ++ [c] := by
      have hc := h c List.mem_cons_self
      cases c with
      | normal name => rfl
      | prefixComponent | rootDir | curDir | parentDir => cases hc
    rw [List.foldl_cons, hpush, ih fun d hd => h d (List.mem_cons_of_mem _ hd),
      List.append_assoc, List.singleton_append]

section Verbatim

variable {base l : OsStr} {p : Prefix} (hb : prefixOf .windows base = some p)
  (hv : p.isVerbatim = true)

include hb hv

theorem isSep_of_verbatim : isSep .windows base = isVerbatimSep := by
  unfold isSep prefixVerbatim
  rw [hb, Option.any_some, hv]
  rfl

theorem components_of_verbatim : components .windows base =
    .prefixComponent p :: ((if hasPhysicalRoot .windows base then [.rootDir] else []) ++
      body .windows base) := by
  have hstart : (startDir .windows base).1 =
      if hasPhysicalRoot .windows base then [.rootDir] else [] := by
    unfold startDir
    dsimp only
    by_cases hroot : hasPhysicalRoot .windows base = true
    · rw [if_pos hroot, if_pos hroot]
    · rw [if_neg hroot, if_neg hroot, hb]
      dsimp only
      rw [hv]
      exact if_neg (by simp)
  rw [components, hb, hstart]
  rfl

end Verbatim

theorem startDir_of_none {os : Os} {l : OsStr} (hp : prefixOf os l = none) : (startDir os l).1 =
    if hasRoot os l then [.rootDir] else if includeCurDir os l then [.curDir] else [] := by
  have hroot : hasPhysicalRoot os l = hasRoot os l := by
    rw [hasRoot, hp]
    exact (Bool.or_false _).symm
  unfold startDir
  dsimp only
  rw [hroot, hp]
  split_ifs <;> rfl

section Location

variable {os : Os} {l : OsStr} (hp : prefixOf os l = none)
  (hup : .parentDir ∉ components os l)

include hp hup

/-- The body of a location without `..` has names only. -/
theorem isNormal_of_mem_body {c : Component} (h : c ∈ body os l) : c.isNormal = true := by
  have hne : c ≠ .parentDir := by
    rintro rfl
    exact hup (List.mem_append_right _ h)
  obtain ⟨comp, -, hparse⟩ := List.mem_filterMap.mp h
  unfold parseSingleComponent prefixVerbatim at hparse
  rw [hp] at hparse
  split_ifs at hparse with hdot hverbatim hparent
  · cases hverbatim
  · exact absurd (Option.some.inj hparse).symm hne
  · exact Option.some.inj hparse ▸ rfl

theorem names_eq_self_body : names os l = body os l := by
  rw [names_eq_body]
  apply List.filter_eq_self.mpr
  intro c hc
  have hn := isNormal_of_mem_body hp hup hc
  cases c with
  | normal name => rfl
  | prefixComponent | rootDir | curDir | parentDir => cases hn

/-- A location pushed component by component. -/
theorem foldl_components (c : Component) (buf : List Component) :
    (components os l).foldl pushComponent (c :: buf) =
      c :: (if hasRoot os l then [.rootDir] else buf) ++ names os l := by
  have hbody : ∀ c ∈ body os l, c.isNormal = true := fun c => isNormal_of_mem_body hp hup
  rw [components, hp, Option.toList_none, List.map_nil, List.nil_append, List.foldl_append,
    foldl_pushComponent hbody, startDir_of_none hp, names_eq_self_body hp hup]
  split_ifs <;> rfl

end Location

section Verbatim

variable {base l : OsStr} {p : Prefix} (hb : prefixOf .windows base = some p)
  (hv : p.isVerbatim = true) (hp : prefixOf .windows l = none)
  (hup : .parentDir ∉ components .windows l)

include hb hv hp hup

theorem readAs_of_mem_kept {c : Component} (h : c ∈ kept .windows base l) :
    ∃ comp, ReadAs comp c := by
  rcases List.mem_append.mp h with h | h
  · split_ifs at h with hroot
    · cases h
    · apply readAs_of_mem_body h
      intro b hsep
      rwa [isSep_of_verbatim hb hv]
  · rw [names_eq_self_body hp hup] at h
    apply readAs_of_mem_body h
    intro b hsep
    rw [isSep_of_none hp]
    exact Bool.or_eq_true_iff.mpr (.inr hsep)

/-- The text a verbatim base and a location are put together to. -/
theorem render_components : render (base.take (prefixLen .windows base)) false
    ((components .windows l).foldl pushComponent (components .windows base)) =
      base.take (prefixLen .windows base) ++ keptText .windows base l := by
  have hread : ∀ c ∈ kept .windows base l, ∃ comp, ReadAs comp c :=
    fun c hc => readAs_of_mem_kept hb hv hp hup hc
  have hsep : (Component.prefixComponent p).needsSep = true := by
    have hdrive : p.isDrive = false := by
      cases p with
      | disk => cases hv
      | verbatim | verbatimUnc | verbatimDisk | deviceNs | unc => rfl
    simp [Component.needsSep, hdrive, p.len_pos]
  have hrest : (components .windows l).foldl pushComponent (components .windows base) =
      .prefixComponent p ::
        ((if hasRoot .windows l || hasPhysicalRoot .windows base then [.rootDir] else []) ++
          kept .windows base l) := by
    rw [components_of_verbatim hb hv, foldl_components hp hup, kept, List.cons_append]
    cases hasRoot .windows l with
    | true => rfl
    | false => simp
  rw [hrest, render, if_neg (by simp), hsep, keptText]
  show base.take (prefixLen .windows base) ++ _ = _
  congr 1
  by_cases hroot : (hasRoot .windows l || hasPhysicalRoot .windows base) = true
  · rw [if_pos hroot, if_pos hroot, List.singleton_append, render_root hread]
  · rw [if_neg hroot, if_neg hroot, List.nil_append, render_true hread]
    split_ifs with hnil
    · rw [hnil]
      rfl
    · rfl

omit hv hp hup hb in
theorem closes_keptText : Closes true (keptText .windows base l) := by
  unfold keptText
  split_ifs with hnil hroot
  · rfl
  · rfl
  · obtain ⟨c, cs, hcons⟩ := List.exists_cons_of_ne_nil hnil
    rw [hcons]
    rfl

theorem namesIn_keptText : namesIn isVerbatimSep (afterRoot .windows (keptText .windows base l)) =
    (if hasRoot .windows l then [] else names .windows base) ++ names .windows l := by
  have hfilter : (kept .windows base l).filter Component.isName =
      (if hasRoot .windows l then [] else names .windows base) ++ names .windows l := by
    have hnames : (names .windows l).filter Component.isName = names .windows l := by
      rw [names, List.filter_filter]
      simp
    rw [kept, List.filter_append, hnames, names_eq_body .windows base]
    split_ifs <;> rfl
  have hhead : ∀ b ∈ (keptText .windows base l).head?, isSepByte .windows b = true →
      isVerbatimSep b = true := by
    intro b hb' _
    have hcloses : Closes true (keptText .windows base l) := closes_keptText
    rw [Closes, Option.mem_def.mp hb'] at hcloses
    exact hcloses
  rw [namesIn_afterRoot hhead, ← hfilter, keptText]
  split_ifs with hnil hroot
  · rw [hnil]
    rfl
  · rw [hnil]
    exact namesIn_nil
  · exact namesIn_below fun c hc => readAs_of_mem_kept hb hv hp hup hc

omit hup hp hb hv in
theorem keptText_eq_nil_iff : keptText .windows base l = [] ↔
    kept .windows base l = [] ∧ hasRoot .windows l = false ∧
      hasPhysicalRoot .windows base = false := by
  unfold keptText
  split_ifs with hnil hroot
  · exact iff_of_false not_false fun h => by simp [h.2.1, h.2.2] at hroot
  · exact iff_of_true rfl ⟨hnil, by simpa using hroot⟩
  · refine iff_of_false ?_ fun h => hnil h.1
    obtain ⟨c, cs, hcons⟩ := List.exists_cons_of_ne_nil hnil
    rw [hcons]
    exact List.cons_ne_nil _ _

omit hup hp hb hv in
theorem kept_eq_nil_iff : kept .windows base l = [] ↔
    (hasRoot .windows l = false → body .windows base = []) ∧ names .windows l = [] := by
  unfold kept
  rw [List.append_eq_nil_iff]
  cases hasRoot .windows l <;> simp

/-- A name behind the prefix is where a share would be. -/
theorem closes_drop_keptText :
    Closes true ((keptText .windows base l).drop 1) ↔ kept .windows base l = [] := by
  unfold keptText
  split_ifs with hnil hroot
  · exact iff_of_true rfl hnil
  · exact iff_of_true rfl hnil
  · refine iff_of_false ?_ hnil
    obtain ⟨c, cs, hcons⟩ := List.exists_cons_of_ne_nil hnil
    obtain ⟨comp, hc⟩ := readAs_of_mem_kept hb hv hp hup (hcons ▸ List.mem_cons_self)
    obtain ⟨b, comp, rfl⟩ := List.exists_cons_of_ne_nil hc.ne_nil
    have hb : isVerbatimSep b = false := hc.sepFree b List.mem_cons_self
    rw [hcons, below, List.flatMap_cons, hc.text]
    intro h
    have hsep : isVerbatimSep b = true := h
    rw [hb] at hsep
    cases hsep

omit hv hp hup in
/-- Nothing stands behind the prefix without a server. -/
theorem behind_unc (hname : p = .verbatim (ascii "UNC")) :
    hasPhysicalRoot .windows base = false ∧ body .windows base = [] := by
  subst hname
  have hs := spells_of_parsePrefix hb
  have hrest : base.drop (prefixLen .windows base) = [] := by
    have hseven : base.drop (4 + 3) = [] := by
      rw [← List.drop_drop, drop_of_unc hs]
      rfl
    rw [prefixLen_of_some hb]
    exact hseven
  have hroot : hasPhysicalRoot .windows base = false := by
    rw [hasPhysicalRoot, hrest]
    rfl
  refine ⟨hroot, ?_⟩
  have hstart : (startDir .windows base).2 = [] := by
    unfold startDir
    dsimp only
    rw [if_neg (by simp [hroot]), hb]
    exact hrest
  rw [body, hstart, List.splitOnP_nil]
  rfl

/-- Whether the prefix of a verbatim base is still read with a location joined. -/
theorem prefixOf_kept_iff (hl : l ≠ []) :
    prefixOf .windows (base.take (prefixLen .windows base) ++ keptText .windows base l) =
      prefixOf .windows base ↔ ¬ Absorbs .windows base l := by
  have hs := spells_of_parsePrefix hb
  have hcloses : Closes true (keptText .windows base l) := closes_keptText
  have hread : ∀ t, prefixOf .windows t = some p ↔ Spells t p := fun t => parsePrefix_eq_some
  have htake : (p.Open → keptText .windows base l = []) →
      Spells (base.take p.len ++ keptText .windows base l) p :=
    fun hopen => hs.take_append (fun _ => closes_of_true hcloses) hopen
  rw [hb, hread, prefixLen_of_some hb]
  unfold Absorbs
  rw [hb]
  cases hcase : p with
  | verbatim name =>
    subst hcase
    by_cases hname : name = ascii "UNC"
    · subst hname
      obtain ⟨hroot, hbody⟩ := behind_unc hb rfl
      by_cases hnil : keptText .windows base l = []
      · obtain ⟨hkept, hl', -⟩ := keptText_eq_nil_iff.mp hnil
        refine iff_of_true (htake fun _ => hnil) fun h => ?_
        rcases h.2 with h | h | h
        · exact hl h
        · rw [hl'] at h
          cases h
        · exact h (kept_eq_nil_iff.mp hkept).2
      · refine iff_of_false ?_ (not_not.mpr ⟨rfl, ?_⟩)
        · obtain ⟨b, t, ht⟩ := List.exists_cons_of_ne_nil hnil
          rw [ht] at hcloses ⊢
          obtain rfl := closes_true_cons hcloses
          intro h
          apply not_spells_unc h
          have hdrop := drop_append_take (t := backslash :: t) (Nat.le_add_right 4 3) hs.len_le
          rw [drop_of_unc hs] at hdrop
          exact hdrop
        · by_contra hnot
          rw [not_or, not_or, not_not] at hnot
          apply hnil
          rw [keptText_eq_nil_iff, kept_eq_nil_iff]
          exact ⟨⟨fun _ => hbody, hnot.2.2⟩, Bool.eq_false_iff.mpr hnot.2.1, hroot⟩
    · exact iff_of_true (htake fun h => absurd h hname) fun h => hname h.1
  | verbatimUnc server share =>
    subst hcase
    by_cases hshare : share = []
    · subst hshare
      rw [spells_unc_nil_iff hs hcloses, closes_drop_keptText hb hv hp hup, kept_eq_nil_iff]
      constructor
      · rintro ⟨hbody, hnames⟩ ⟨-, -, h | h⟩
        · exact h hnames
        · exact h.2 (hbody h.1)
      · intro h
        constructor
        · intro hroot
          by_contra hbody
          exact h ⟨rfl, hl, .inr ⟨hroot, hbody⟩⟩
        · by_contra hnames
          exact h ⟨rfl, hl, .inl hnames⟩
    · exact iff_of_true (htake fun h => absurd h hshare) fun h => hshare h.1
  | verbatimDisk drive =>
    subst hcase
    exact iff_of_true (htake False.elim) not_false
  | deviceNs | unc | disk =>
    subst hcase
    cases hv

end Verbatim

theorem hasImplicitRoot_of_verbatim {p : Prefix} (h : p.isVerbatim = true) :
    p.hasImplicitRoot = true := by
  cases p with
  | verbatim | verbatimUnc | verbatimDisk => rfl
  | deviceNs | unc | disk => cases h

/-- The location leads below a verbatim base as its names say, as long as the prefix is read. -/
theorem below_kept_iff {base l : OsStr} {p : Prefix} (hb : prefixOf .windows base = some p)
    (hv : p.isVerbatim = true) (hp : prefixOf .windows l = none)
    (hup : .parentDir ∉ components .windows l) (hl : l ≠ []) :
    Below .windows base (base.take (prefixLen .windows base) ++ keptText .windows base l) ↔
      ¬ Absorbs .windows base l ∧
        (hasRoot .windows l = false ∨ names .windows base <+: names .windows l) := by
  rw [← prefixOf_kept_iff hb hv hp hup hl]
  have hup' : .parentDir ∉ names .windows l := fun h => hup (List.mem_of_mem_filter h)
  have himplicit : (prefixOf .windows base).any Prefix.hasImplicitRoot = true := by
    rw [hb]
    exact hasImplicitRoot_of_verbatim hv
  constructor
  · rintro ⟨h, -, rest, hnames, -⟩
    refine ⟨h, ?_⟩
    rw [names_take_append h, isSep_of_verbatim hb hv, namesIn_keptText hb hv hp hup] at hnames
    cases hroot : hasRoot .windows l with
    | false => exact .inl rfl
    | true =>
      rw [if_pos hroot, List.nil_append] at hnames
      exact .inr ⟨rest, hnames.symm⟩
  · rintro ⟨h, hroot⟩
    have hboth : hasRoot .windows
        (base.take (prefixLen .windows base) ++ keptText .windows base l) =
          hasRoot .windows base := by
      rw [hasRoot_take_append h, hasRoot, himplicit, Bool.or_true, Bool.or_true]
    refine ⟨h, hboth, ?_⟩
    rw [names_take_append h, isSep_of_verbatim hb hv, namesIn_keptText hb hv hp hup]
    cases hlr : hasRoot .windows l with
    | false => exact ⟨names .windows l, rfl, hup'⟩
    | true =>
      obtain ⟨rest, hrest⟩ := hroot.resolve_left (by simp [hlr])
      refine ⟨rest, hrest.symm, fun hmem => hup' ?_⟩
      rw [← hrest]
      exact List.mem_append_right _ hmem

/-! ### Every location -/

/-- A location that says again where the base is. -/
def Repeats (os : Os) (base l : OsStr) : Prop :=
  (prefixOf os l = none ∨ prefixOf os l = prefixOf os base) ∧ hasRoot os l = hasRoot os base ∧
    names os base <+: names os l

/-- The location is relative or repeats the base, and no unfinished prefix takes it in. -/
def Stays (os : Os) (base l : OsStr) : Prop :=
  ¬ Absorbs os base l ∧ (prefixOf os l = none ∧ hasRoot os l = false ∨ Repeats os base l)

/-- A location with a prefix takes the place of the base. -/
theorem below_of_prefix_iff {os : Os} {base l : OsStr} {p : Prefix} (hp : prefixOf os l = some p)
    (habs : isAbsolute os l = false) (hup : .parentDir ∉ names os l) :
    Below os base l ↔ Stays os base l := by
  have hdrive : p.isDrive = true := by
    unfold isAbsolute hasRoot at habs
    rw [hp] at habs
    cases h : p.isDrive with
    | true => rfl
    | false => simp [Prefix.hasImplicitRoot, h] at habs
  constructor
  · rintro ⟨h, hroot, rest, hnames, -⟩
    refine ⟨?_, .inr ⟨.inr h, hroot, rest, hnames.symm⟩⟩
    unfold Absorbs
    rw [← h, hp]
    cases p with
    | disk => exact not_false
    | verbatim | verbatimUnc | verbatimDisk | deviceNs | unc => cases hdrive
  · rintro ⟨-, ⟨h, -⟩ | ⟨h, hroot, rest, hnames⟩⟩
    · rw [hp] at h
      cases h
    · refine ⟨h.resolve_left (by simp [hp]), hroot, rest, hnames.symm, fun hmem => hup ?_⟩
      rw [← hnames]
      exact List.mem_append_right _ hmem

theorem not_absorbs_of_rooted {os : Os} {base l : OsStr} (hr : hasRoot os l = true)
    (hplain : prefixVerbatim os base = false) : ¬ Absorbs os base l := by
  unfold prefixVerbatim at hplain
  unfold Absorbs
  rw [hr]
  cases hb : prefixOf os base with
  | none => exact fun h => Bool.noConfusion h.2.1
  | some p =>
    rw [hb] at hplain
    cases p with
    | deviceNs => exact fun h => Bool.noConfusion h.2.2.1
    | unc | disk => exact not_false
    | verbatim | verbatimUnc | verbatimDisk => cases hplain

/-- Only a base that begins with two separators has an unfinished prefix. -/
theorem not_absorbs_of_not_begins {base l : OsStr} (h : ¬ Begins "\\\\" base) :
    ¬ Absorbs .windows base l := by
  unfold Absorbs
  cases hb : prefixOf .windows base with
  | none => exact fun habs => h habs.1
  | some p =>
    cases spells_of_parsePrefix hb with
    | verbatimUnc hv | verbatim hv | verbatimDisk hv => exact absurd hv.begins h
    | deviceNs _ hdevice => exact absurd (hdevice.of_begins (by decide)) h
    | unc | disk => exact not_false

theorem join_relative {os : Os} {base l : OsStr} :
    (if needSep os base then base ++ [mainSep os] ++ l else base ++ l) = asDir os base ++ l := by
  unfold asDir
  split_ifs <;> rfl

/-- Where joining a location that is neither absolute nor leads up goes. -/
theorem below_join_iff {os : Os} {base l : OsStr} (habs : isAbsolute os l = false)
    (hup : .parentDir ∉ components os l) : Below os base (join os base l) ↔ Stays os base l := by
  have hup' : .parentDir ∉ names os l := fun h => hup (List.mem_of_mem_filter h)
  unfold join
  cases hp : prefixOf os l with
  | some p =>
    rw [if_pos (.inr rfl)]
    exact below_of_prefix_iff hp habs hup'
  | none =>
    rw [if_neg (by simp [habs])]
    by_cases hverbatim : prefixVerbatim os base = true ∧ l ≠ []
    · rw [if_pos hverbatim]
      obtain ⟨hv, hl⟩ := hverbatim
      cases os with
      | unix => cases hv
      | windows =>
        obtain ⟨p, hb, hv⟩ : ∃ p, prefixOf .windows base = some p ∧ p.isVerbatim = true :=
          (Option.any_eq_true _ _).mp hv
        have hroot : hasRoot .windows base = true := by
          rw [hasRoot, hb]
          exact Bool.or_eq_true_iff.mpr (.inr (hasImplicitRoot_of_verbatim hv))
        rw [render_components hb hv hp hup, below_kept_iff hb hv hp hup hl]
        apply and_congr_right
        intro _
        cases hr : hasRoot .windows l with
        | false => exact iff_of_true (.inl rfl) (.inl ⟨hp, rfl⟩)
        | true =>
          constructor
          · exact fun h => .inr ⟨.inl hp, hr.trans hroot.symm, h.resolve_left (by decide)⟩
          · rintro (⟨-, h⟩ | ⟨-, -, h⟩)
            · cases h
            · exact .inr h
    · rw [if_neg hverbatim]
      have hplain : prefixVerbatim os base = false ∨ l = [] := by
        rw [not_and_or, not_not] at hverbatim
        exact hverbatim.imp_left Bool.eq_false_iff.mpr
      by_cases hr : hasRoot os l = true
      · rw [if_pos hr]
        have hplain : prefixVerbatim os base = false := by
          apply hplain.resolve_right
          rintro rfl
          rw [hasRoot_of_none hp] at hr
          cases hr
        rw [below_rooted_iff hp hr hup' hplain (prefixOf_rooted hp hr hplain)]
        constructor
        · rintro ⟨hbase, hnames⟩
          exact ⟨not_absorbs_of_rooted hr hplain, .inr ⟨.inl hp, hr.trans hbase.symm, hnames⟩⟩
        · rintro ⟨-, ⟨-, h⟩ | ⟨-, hbase, hnames⟩⟩
          · rw [hr] at h
            cases h
          · exact ⟨hbase.symm.trans hr, hnames⟩
      · have hr' := Bool.eq_false_iff.mpr hr
        have hread := prefixOf_asDir_iff hp hr' hplain
        rw [if_neg hr, join_relative]
        constructor
        · exact fun h => ⟨hread.mp h.1, .inl ⟨hp, hr'⟩⟩
        · exact fun h => below_asDir hp hr' hup' hplain (hread.mpr h.1)

end OsPath
