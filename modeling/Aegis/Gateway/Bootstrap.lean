import Aegis.Gateway.Controller

/-! The bootstrap phase that Tor's probe prints, and which outputs are rightly read as done. -/
namespace Aegis.Gateway
open Text

/-- The number that decimal digits denote, with an optional plus sign, however large. -/
def numeral (cs : List Char) : Option ℕ :=
  let ds := match cs with
    | '+' :: ds => ds
    | ds => ds
  if ds ≠ [] ∧ ds.all Char.isDigit then
    some (ds.foldl (fun n c => 10 * n + (c.toNat - '0'.toNat)) 0)
  else none

/-- The number a word denotes, bare or after `PROGRESS=`. -/
def progress (tok : List Char) : Option ℕ :=
  numeral ((stripPrefix "PROGRESS=".toList tok).getD tok)

/-- The numbers in an output, in order. -/
def numerals (stdout : String) : List ℕ := (splitWhitespace stdout.toList).filterMap progress

section Numerals

variable {stdout : String}

/-- A number is parsed when it fits the type. -/
theorem parseUnsigned_eq_filter (bound : ℕ) (cs : List Char) :
    parseUnsigned bound cs = (numeral cs).filter (· < bound) := by
  have hfilter (p : Prop) [Decidable p] (n : ℕ) :
      (if p then if n < bound then some n else none else none) =
        (if p then some n else none).filter (· < bound) := by
    by_cases hp : p
    · by_cases hn : n < bound
      · simp [hp, hn, Option.filter]
      · simp [hp, hn, Option.filter]
    · simp [hp]
  exact hfilter _ _

theorem findSome?_filter {α : Type} (f : α → Option ℕ) (p : ℕ → Bool) (as : List α) :
    (as.findSome? fun a => (f a).filter p) = (as.filterMap f).find? p := by
  induction as with
  | nil => rfl
  | cons a as ih =>
    cases hf : f a with
    | none =>
      rw [List.filterMap_cons_none hf, List.findSome?_cons, hf, ← ih]
      rfl
    | some n =>
      rw [List.filterMap_cons_some hf, List.findSome?_cons, hf, ih]
      cases hp : p n with
      | true => rw [List.find?_cons_of_pos hp, Option.filter_some_pos hp]
      | false => rw [List.find?_cons_of_neg (by simp [hp]), Option.filter_some_neg (by simp [hp])]

/-- The percentage is the first number that fits a byte, clamped. -/
theorem bootstrapPercent_eq (stdout : String) :
    bootstrapPercent stdout = min (((numerals stdout).find? (· < 256)).getD 0) 100 := by
  have hparse (tok : List Char) :
      parseUnsigned 256 ((stripPrefix "PROGRESS=".toList tok).getD tok) =
        (progress tok).filter (· < 256) := parseUnsigned_eq_filter 256 _
  unfold bootstrapPercent
  simp only [hparse]
  rw [findSome?_filter]
  rfl

theorem parseTorBootstrap_up : (parseTorBootstrap stdout).state = .up ↔
    bootstrapPercent stdout = 100 := by
  unfold parseTorBootstrap
  dsimp only
  split_ifs with hpct hrange
  · simp [hpct]
  · simp [hpct]
  · simp [hpct]

/-- The tunnel is taken to be up from a first such number of 100 on. -/
theorem parseTorBootstrap_up_iff : (parseTorBootstrap stdout).state = .up ↔
    ∃ n, (numerals stdout).find? (· < 256) = some n ∧ 100 ≤ n := by
  rw [parseTorBootstrap_up, bootstrapPercent_eq]
  cases (numerals stdout).find? (· < 256) with
  | none => simp
  | some n =>
    simp only [Option.getD_some, Option.some.injEq, exists_eq_left']
    omega

end Numerals

/-- The tunnel counts as up after a probe only if the first number the probe printed is 100. -/
def ProbedUp (tor : TorConfig) (out : CommandOutput) : Prop :=
  ∀ st, probeStatus (.tor tor) (.ok out) = .ok st → st.state = .up →
    (numerals out.stdout).head? = some 100

/-- The first number is 100, or the first number that fits a byte, if any, is below 100. -/
def PlainProgress (stdout : String) : Prop :=
  (numerals stdout).head? = some 100 ∨
    ∀ n, (numerals stdout).find? (· < 256) = some n → n < 100

theorem probeStatus_up (tor : TorConfig) {out : CommandOutput} :
    (∃ st, probeStatus (.tor tor) (.ok out) = .ok st ∧ st.state = .up) ↔
      out.success = true ∧ (parseTorBootstrap out.stdout).state = .up := by
  unfold probeStatus
  cases hsuccess : out.success with
  | false => simp [hsuccess]
  | true => simp [hsuccess]

/-- A probe is read soundly exactly when it fails or its output is plain. -/
theorem probedUp_iff (tor : TorConfig) (out : CommandOutput) :
    ProbedUp tor out ↔ out.success = false ∨ PlainProgress out.stdout := by
  constructor
  · intro hsound
    by_cases hsuccess : out.success = true
    · right
      by_cases hup : (parseTorBootstrap out.stdout).state = .up
      · obtain ⟨st, hprobe, hst⟩ := (probeStatus_up tor).mpr ⟨hsuccess, hup⟩
        exact .inl (hsound st hprobe hst)
      · right
        intro n hn
        rw [parseTorBootstrap_up_iff] at hup
        by_contra hle
        exact hup ⟨n, hn, by omega⟩
    · exact .inl (by simpa using hsuccess)
  · intro hplain st hprobe hst
    obtain ⟨hsuccess, hup⟩ := (probeStatus_up tor).mp ⟨st, hprobe, hst⟩
    obtain ⟨n, hn, hle⟩ := parseTorBootstrap_up_iff.mp hup
    rcases hplain with hfailed | hhead | hbelow
    · rw [hsuccess] at hfailed
      cases hfailed
    · exact hhead
    · have hlt := hbelow n hn
      omega

/-- A reply of Tor's control port, with its status code in front of the phase. -/
def controlReply : CommandOutput := ⟨some 0, "250 NOTICE BOOTSTRAP PROGRESS=10", ""⟩

/-- The status code is taken for the percentage. -/
theorem controlReply_up :
    probeStatus (.tor .default) (.ok controlReply) = .ok ⟨.up, some 100, none⟩ ∧
      numerals controlReply.stdout = [250, 10] ∧ ¬ ProbedUp .default controlReply := by
  have hprobe : probeStatus (.tor .default) (.ok controlReply) = .ok ⟨.up, some 100, none⟩ := by
    decide +kernel
  have hnumerals : numerals controlReply.stdout = [250, 10] := by decide +kernel
  refine ⟨hprobe, hnumerals, fun h => ?_⟩
  have hhead := h _ hprobe rfl
  rw [hnumerals] at hhead
  cases hhead

end Aegis.Gateway
