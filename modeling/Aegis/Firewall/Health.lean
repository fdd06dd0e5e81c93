import Aegis.Core.Network
import Aegis.Firewall.Swap
import Aegis.Lib.Text

/-! The health probe of the gateway image, `aegis-healthcheck`: what it reads off the loaded tables
and the control port of Tor, which ruleset it loads, and when its report is true. -/
namespace Aegis.Firewall
open Nft Text

/-! ### The probe -/

/-- The digits behind `PROGRESS=`, at most three, where a text begins with it. -/
def progressAt (cs : List Char) : Option (List Char) :=
  (stripPrefix "PROGRESS=".toList cs).bind fun rest =>
    let digits := (rest.takeWhile Char.isDigit).take 3
    if digits = [] then none else some digits

/-- The digits behind the last `PROGRESS=` of a line that has some. -/
def lastProgress : List Char → Option (List Char)
  | [] => none
  | c :: cs => (lastProgress cs).or (progressAt (c :: cs))

/-- The digits of the bootstrap phase, or `none` for -1: there is no reply where the cookie cannot
be read or the control port does not answer. -/
def torBootstrapPercent (reply : Option String) : Option (List Char) :=
  reply.bind fun text => (text.toList.splitOn '\n').findSome? lastProgress

def digitsValue (digits : List Char) : ℕ :=
  digits.foldl (fun n c => 10 * n + (c.toNat - '0'.toNat)) 0

/-- A line of `nft list tables`. -/
def listLine (t : Table) : String := "table " ++ t.family.script ++ " " ++ t.name

/-- `nft list tables | grep -q`. -/
def grepTables (pattern : String) (tables : List Table) : Bool :=
  tables.any fun t => decide (pattern.toList <:+: (listLine t).toList)

/-- The pattern `table (inet|ip) aegis(_lock)?`. -/
def firewallApplied (tables : List Table) : Bool :=
  grepTables "table inet aegis" tables || grepTables "table ip aegis" tables

/-- `nft -f`, with the failure of a load ignored. -/
def nftLoad (l : Load) (tables : List Table) : List Table :=
  (loadAll .gatewayImage tables [l]).getD tables

def engageKillswitch (tables : List Table) : List Table :=
  if grepTables "aegis_lock" tables then tables else nftLoad .killswitch tables

def restoreFirewall (tables : List Table) : List Table :=
  if grepTables "aegis_lock" tables then nftLoad .armed tables else tables

/-- The document the probe writes. -/
structure HealthReport where
  gatewayUp : Bool
  firewallApplied : Bool
  tunnel : TunnelState
  bootstrapPercent : Option String
  detail : String
  killswitch : KillSwitchState

/-- The loaded tables, and the document that was written last. -/
structure Probe where
  tables : List Table
  out : Option HealthReport

namespace Probe

def writeHealth (s : Probe) (pct : Option (List Char)) (fw : Bool) : Probe :=
  match pct with
  | some digits =>
    if 100 ≤ digitsValue digits then
      ⟨restoreFirewall s.tables,
        some ⟨true, fw, .up, some (String.ofList digits), "tor bootstrapped", .armed⟩⟩
    else
      ⟨engageKillswitch s.tables,
        some ⟨true, fw, .connecting, some (String.ofList digits), "tor bootstrapping", .engaged⟩⟩
  | none =>
    ⟨engageKillswitch s.tables,
      some ⟨true, fw, .down, none, "tor control port unreachable", .engaged⟩⟩

/-- One iteration: the tables are probed before they are swapped. -/
def runOnce (s : Probe) (reply : Option String) : Probe :=
  s.writeHealth (torBootstrapPercent reply) (Firewall.firewallApplied s.tables)

/-- The ruleset of the boot is loaded, nothing is reported yet. -/
def boot : Probe := ⟨nftLoad .armed [], none⟩

/-- The loop, for the replies it gets. -/
def run (replies : List (Option String)) : Probe := replies.foldl runOnce boot

end Probe

/-! ### What the report is about -/

/-- Tor is not fully bootstrapped. -/
def Down (reply : Option String) : Prop :=
  ∀ digits, torBootstrapPercent reply = some digits → digitsValue digits < 100

/-- A table of the kill switch is loaded. -/
def LockLoaded (tables : List Table) : Prop := aegisLock ∈ tables ∨ aegisLock6 ∈ tables

/-- The tables the image loads for a state of the kill switch. -/
def imageRuleset : KillSwitchState → List Table
  | .armed => armedTables
  | .engaged => locks 0 .gatewayImage

/-- The last report is true of the tables. -/
def Probe.Truthful (s : Probe) : Prop :=
  ∃ report, s.out = some report ∧ (report.killswitch = .armed ↔ ¬ LockLoaded s.tables) ∧
    (report.firewallApplied = true ↔ imageRuleset report.killswitch ⊆ s.tables)

/-! ### The swaps of a run -/

theorem nftLoad_stage (stage : Stage) (l : Load) :
    nftLoad l (stage.tables .gatewayImage) = (stage.next .gatewayImage l).tables .gatewayImage := by
  rw [nftLoad, loadAll_stage]
  rfl

theorem boot_tables : Probe.boot.tables = Stage.armed.tables .gatewayImage :=
  nftLoad_stage .bare .armed

/-- The lock tables are found where they are, and nothing else of the image is. -/
theorem grepTables_lock : grepTables "aegis_lock" (Stage.armed.tables .gatewayImage) = false ∧
    grepTables "aegis_lock" ((Stage.locked 0).tables .gatewayImage) = true ∧
    grepTables "aegis_lock" ((Stage.rearmed 0).tables .gatewayImage) = true := by
  decide +kernel

/-- The probe for the firewall finds the kill switch only. -/
theorem firewallApplied_stage : firewallApplied (Stage.armed.tables .gatewayImage) = false ∧
    firewallApplied ((Stage.locked 0).tables .gatewayImage) = true ∧
    firewallApplied ((Stage.rearmed 0).tables .gatewayImage) = true := by
  decide +kernel

/-- Without the tunnel the kill switch is loaded, unless its tables are there already. -/
theorem engageKillswitch_stage :
    engageKillswitch (Stage.armed.tables .gatewayImage) = (Stage.locked 0).tables .gatewayImage ∧
    engageKillswitch ((Stage.locked 0).tables .gatewayImage) =
      (Stage.locked 0).tables .gatewayImage ∧
    engageKillswitch ((Stage.rearmed 0).tables .gatewayImage) =
      (Stage.rearmed 0).tables .gatewayImage := by
  obtain ⟨harmed, hlocked, hrearmed⟩ := grepTables_lock
  unfold engageKillswitch
  rw [harmed, hlocked, hrearmed, nftLoad_stage]
  exact ⟨rfl, rfl, rfl⟩

/-- With the tunnel the normal ruleset is loaded over the kill switch, which stays. -/
theorem restoreFirewall_stage :
    restoreFirewall (Stage.armed.tables .gatewayImage) = Stage.armed.tables .gatewayImage ∧
    restoreFirewall ((Stage.locked 0).tables .gatewayImage) =
      (Stage.rearmed 0).tables .gatewayImage ∧
    restoreFirewall ((Stage.rearmed 0).tables .gatewayImage) =
      (Stage.rearmed 0).tables .gatewayImage := by
  obtain ⟨harmed, hlocked, hrearmed⟩ := grepTables_lock
  unfold restoreFirewall
  rw [harmed, hlocked, hrearmed, nftLoad_stage, nftLoad_stage]
  exact ⟨rfl, rfl, rfl⟩

/-! ### The report of an iteration -/

section Report

variable {s : Probe} {reply : Option String}

/-- One iteration by whether Tor is bootstrapped. -/
theorem Probe.runOnce_cases (s : Probe) (reply : Option String) :
    (Down reply ∧ (s.runOnce reply).tables = engageKillswitch s.tables ∧
      ∃ report, (s.runOnce reply).out = some report ∧ report.killswitch = .engaged ∧
        report.firewallApplied = Firewall.firewallApplied s.tables) ∨
    (¬ Down reply ∧ (s.runOnce reply).tables = restoreFirewall s.tables ∧
      ∃ report, (s.runOnce reply).out = some report ∧ report.killswitch = .armed ∧
        report.firewallApplied = Firewall.firewallApplied s.tables) := by
  unfold runOnce writeHealth
  cases hpct : torBootstrapPercent reply with
  | none =>
    refine .inl ⟨fun digits h => ?_, rfl, _, rfl, rfl, rfl⟩
    rw [hpct] at h
    cases h
  | some digits =>
    by_cases hup : 100 ≤ digitsValue digits
    · dsimp only
      rw [if_pos hup]
      refine .inr ⟨fun hdown => ?_, rfl, _, rfl, rfl, rfl⟩
      exact absurd (hdown digits hpct) (Nat.not_lt.mpr hup)
    · dsimp only
      rw [if_neg hup]
      refine .inl ⟨fun digits' h => ?_, rfl, _, rfl, rfl, rfl⟩
      rw [hpct] at h
      obtain rfl := Option.some.inj h
      omega

theorem Probe.run_append (ps : List (Option String)) (p : Option String) :
    run (ps ++ [p]) = (run ps).runOnce p := by
  simp [run]

/-- What the replies so far left loaded: the kill switch never leaves. -/
theorem Probe.run_tables (ps : List (Option String)) :
    ((∀ q ∈ ps, ¬ Down q) ∧ (run ps).tables = Stage.armed.tables .gatewayImage) ∨
    ((∃ q ∈ ps, Down q) ∧ ((run ps).tables = (Stage.locked 0).tables .gatewayImage ∨
      (run ps).tables = (Stage.rearmed 0).tables .gatewayImage)) := by
  obtain ⟨hearmed, helocked, herearmed⟩ := engageKillswitch_stage
  obtain ⟨hrarmed, hrlocked, hrrearmed⟩ := restoreFirewall_stage
  induction ps using List.reverseRecOn with
  | nil => exact .inl ⟨by simp, boot_tables⟩
  | append_singleton ps p ih =>
    rw [run_append]
    rcases runOnce_cases (run ps) p with ⟨hdown, htables, -⟩ | ⟨hup, htables, -⟩
    · refine .inr ⟨⟨p, by simp, hdown⟩, ?_⟩
      rw [htables]
      rcases ih with ⟨-, h⟩ | ⟨-, h | h⟩ <;> rw [h]
      · exact .inl hearmed
      · exact .inl helocked
      · exact .inr herearmed
    · rw [htables]
      rcases ih with ⟨hall, h⟩ | ⟨⟨q, hq, hdown⟩, h | h⟩ <;> rw [h]
      · refine .inl ⟨fun q hq => ?_, hrarmed⟩
        rcases List.mem_append.mp hq with hq | hq
        · exact hall q hq
        · rw [List.mem_singleton.mp hq]
          exact hup
      · exact .inr ⟨⟨q, List.mem_append_left _ hq, hdown⟩, .inr hrlocked⟩
      · exact .inr ⟨⟨q, List.mem_append_left _ hq, hdown⟩, .inr hrrearmed⟩

theorem Probe.truthful_of {report : HealthReport} (hout : s.out = some report) :
    s.Truthful ↔ (report.killswitch = .armed ↔ ¬ LockLoaded s.tables) ∧
      (report.firewallApplied = true ↔ imageRuleset report.killswitch ⊆ s.tables) := by
  unfold Truthful
  simp [hout]

theorem lockLoaded_locked : LockLoaded ((Stage.locked 0).tables .gatewayImage) :=
  .inl List.mem_cons_self

theorem lockLoaded_rearmed : LockLoaded ((Stage.rearmed 0).tables .gatewayImage) :=
  .inl List.mem_cons_self

theorem lock_subset_rearmed :
    imageRuleset .engaged ⊆ (Stage.rearmed 0).tables .gatewayImage :=
  List.subset_append_left _ _

/-- The report of an iteration is true exactly when Tor is not bootstrapped in it, nor was in an
earlier one: the probe does not find the normal ruleset, and does not remove the kill switch. -/
theorem truthful_iff (ps : List (Option String)) (p : Option String) :
    (Probe.run (ps ++ [p])).Truthful ↔ Down p ∧ ∃ q ∈ ps, Down q := by
  obtain ⟨hearmed, helocked, herearmed⟩ := engageKillswitch_stage
  obtain ⟨hrarmed, hrlocked, hrrearmed⟩ := restoreFirewall_stage
  obtain ⟨hfarmed, hflocked, hfrearmed⟩ := firewallApplied_stage
  rw [Probe.run_append]
  rcases Probe.runOnce_cases (Probe.run ps) p with ⟨hdown, htables, report, hout, hks, hfw⟩ |
    ⟨hup, htables, report, hout, hks, hfw⟩
  · rw [Probe.truthful_of hout, htables, hks, hfw]
    rcases Probe.run_tables ps with ⟨hnone, h⟩ | ⟨hsome, h | h⟩ <;> rw [h]
    · -- the kill switch is loaded after the probe, which found neither ruleset
      rw [hearmed, hfarmed]
      refine iff_of_false (fun ⟨_, happlied⟩ => ?_) fun ⟨_, q, hq, hq'⟩ => hnone q hq hq'
      exact absurd (happlied.mpr fun t ht => ht) (by simp)
    · rw [helocked, hflocked]
      refine iff_of_true ⟨?_, iff_of_true rfl fun t ht => ht⟩ ⟨hdown, hsome⟩
      simp [lockLoaded_locked]
    · rw [herearmed, hfrearmed]
      refine iff_of_true ⟨?_, iff_of_true rfl lock_subset_rearmed⟩ ⟨hdown, hsome⟩
      simp [lockLoaded_rearmed]
  · rw [Probe.truthful_of hout, htables, hks, hfw]
    refine iff_of_false (fun ⟨hlock, happlied⟩ => ?_) fun hboth => hup hboth.1
    rcases Probe.run_tables ps with ⟨-, h⟩ | ⟨-, h | h⟩ <;> rw [h] at hlock happlied
    · -- no pattern of the probe matches a table of the normal ruleset
      rw [hrarmed, hfarmed] at happlied
      exact absurd (happlied.mpr fun t ht => ht) (by simp)
    · rw [hrlocked] at hlock
      exact hlock.mp rfl lockLoaded_rearmed
    · rw [hrrearmed] at hlock
      exact hlock.mp rfl lockLoaded_rearmed

/-- A reply of a control port whose Tor is bootstrapped. -/
def bootstrapped : String := "250-status/bootstrap-phase=NOTICE BOOTSTRAP PROGRESS=100 TAG=done"

theorem progress_bootstrapped :
    torBootstrapPercent (some bootstrapped) = some ['1', '0', '0'] := by decide +kernel

/-- The first report of a gateway whose tunnel is up says that no firewall is applied, while the
normal ruleset is. -/
theorem bootstrapped_not_truthful : ¬ (Probe.run [some bootstrapped]).Truthful ∧
    imageRuleset .armed ⊆ (Probe.run [some bootstrapped]).tables ∧
    (Probe.run [some bootstrapped]).out.map HealthReport.firewallApplied = some false := by
  change ¬ (Probe.boot.runOnce (some bootstrapped)).Truthful ∧ _ ∧ _
  rcases Probe.runOnce_cases Probe.boot (some bootstrapped) with ⟨hdown, -⟩ |
    ⟨-, htables, report, hout, hks, hfw⟩
  · exact absurd (hdown _ progress_bootstrapped) (by decide)
  · rw [boot_tables, restoreFirewall_stage.1] at htables
    rw [boot_tables, firewallApplied_stage.1] at hfw
    have hloaded : imageRuleset .armed ⊆ (Probe.boot.runOnce (some bootstrapped)).tables := by
      rw [htables]
      exact fun t ht => ht
    refine ⟨fun htruthful => ?_, hloaded, ?_⟩
    · have happlied := ((Probe.truthful_of hout).mp htruthful).2
      rw [hks, hfw] at happlied
      exact absurd (happlied.mpr hloaded) (by simp)
    · change (Probe.boot.runOnce (some bootstrapped)).out.map HealthReport.firewallApplied = _
      rw [hout, Option.map_some, hfw]

end Report

end Aegis.Firewall
