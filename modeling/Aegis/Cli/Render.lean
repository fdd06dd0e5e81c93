import Aegis.Ipc.Protocol
import Aegis.Lib.Table

/-! The texts the command line prints for people. -/
namespace Aegis.Cli
open Ipc

/-- What other libraries print: time spans and timestamps, and sizes in floating point. -/
structure Printers (Time : Type) where
  /-- The whole seconds from a time to a later one. -/
  seconds : Time → Time → ℤ
  rfc3339 : Time → String
  human : StorageUsage → String

/-! ### Tables -/

def renderTable (headers : List String) (rows : List (List String)) : String :=
  String.ofList (Table.render (headers.map String.toList) (rows.map (List.map String.toList)))

/-- Cut at its columns, the text gives back the cells of every row, up to the spaces behind a
cell. -/
def ReadsBack (headers : List String) (rows : List (List String)) (text : String) : Prop :=
  Table.read (Table.widths (headers.map String.toList) (rows.map (List.map String.toList)))
    text.toList = (headers :: rows).map (List.map fun cell => Table.bare cell.toList)

/-- The last cell of a row ends in a character that is no whitespace. -/
def EndsInText (row : List String) : Prop :=
  ∃ cells cell c, row.map String.toList = cells ++ [cell ++ [c]] ∧ Text.isWhitespace c = false

theorem renderTable_readsBack_iff {headers : List String} {rows : List (List String)}
    (hrows : ∀ row ∈ rows, row.length = headers.length)
    (hlast : ∀ row ∈ (headers :: rows).getLast?, EndsInText row) :
    ReadsBack headers rows (renderTable headers rows) ↔
      ∀ row ∈ headers :: rows, ∀ cell ∈ row, '\n' ∉ cell.toList := by
  have hclosed : Table.Closed (headers.map String.toList :: rows.map (List.map String.toList)) := by
    obtain ⟨cells, cell, c, hrow, hc⟩ :=
      hlast _ (List.getLast?_eq_some_getLast (List.cons_ne_nil headers rows))
    refine ⟨((headers :: rows).dropLast).map (List.map String.toList), cells, cell, c, ?_, hc⟩
    rw [← hrow, ← List.map_cons, ← List.map_singleton, ← List.map_append,
      List.dropLast_append_getLast]
  have h := Table.read_render_iff (by simpa using hrows) hclosed
  rw [ReadsBack, renderTable, String.toList_ofList]
  simpa [List.map_map, Function.comp_def] using h

def trimEnd (s : String) : String := String.ofList (Text.trimEnd s.toList)

def humanAge (age : ℤ) : String :=
  let secs := (max age 0).toNat
  if secs < 60 then toString secs ++ "s"
  else
    let mins := secs / 60
    if mins < 60 then toString mins ++ "m"
    else
      let hours := mins / 60
      if hours < 24 then toString hours ++ "h " ++ toString (mins % 60) ++ "m"
      else toString (hours / 24) ++ "d " ++ toString (hours % 24) ++ "h"

theorem newline_digits (n : ℕ) : '\n' ∉ Nat.toDigits 10 n :=
  fun h => absurd (Nat.isDigit_of_mem_toDigits (by decide) (by decide) h) (by decide)

theorem newline_humanAge (age : ℤ) : '\n' ∉ (humanAge age).toList := by
  unfold humanAge
  dsimp only
  split_ifs <;> simp [newline_digits]

section Profiles

variable {Time : Type} (pr : Printers Time) (now : Time)

def lastRun : Option Time → String
  | some launched => humanAge (pr.seconds launched now) ++ " ago"
  | none => "never"

def gatewayState (p : Ipc.Profile Time) : String := if p.locked then "running" else "idle"

def isolationCell (level : IsolationLevel) : String :=
  match level with
  | .fullVm => "vm"
  | .hostProcess => "host"

def profileHeaders : List String :=
  ["NAME", "TYPE", "NET", "ISOLATION", "PROTECTION", "GATEWAY", "PUBLIC IP", "AGE", "SIZE",
    "LAST RUN"]

def profileRow (p : Ipc.Profile Time) : List String :=
  [p.spec.name, p.spec.kind.label, p.spec.network.mode.label, isolationCell p.spec.isolation,
    p.spec.protection.label, gatewayState p, "-", humanAge (pr.seconds p.createdAt now),
    pr.human p.storage, lastRun pr now p.lastLaunched]

def profilesTable (profiles : List (Ipc.Profile Time)) : String :=
  if profiles.isEmpty then "no profiles"
  else renderTable profileHeaders (profiles.map (profileRow pr now))

theorem newline_lastRun (last : Option Time) : '\n' ∉ (lastRun pr now last).toList := by
  cases last with
  | none =>
    show '\n' ∉ "never".toList
    decide
  | some launched => simp [lastRun, newline_humanAge]

theorem newline_profileRow (hhuman : ∀ s, '\n' ∉ (pr.human s).toList) (p : Ipc.Profile Time) :
    (∀ cell ∈ profileRow pr now p, '\n' ∉ cell.toList) ↔ '\n' ∉ p.spec.name.toList := by
  have hkind : '\n' ∉ p.spec.kind.label.toList := by cases p.spec.kind <;> decide
  have hmode : '\n' ∉ p.spec.network.mode.label.toList := by
    cases p.spec.network.mode <;> simp [NetworkMode.label]
  have hiso : '\n' ∉ (isolationCell p.spec.isolation).toList := by
    cases p.spec.isolation <;> decide
  have hprot : '\n' ∉ p.spec.protection.label.toList := by cases p.spec.protection <;> decide
  have hgate : '\n' ∉ (gatewayState p).toList := by
    unfold gatewayState
    split_ifs <;> decide
  simp [profileRow, hkind, hmode, hiso, hprot, hgate, newline_humanAge, hhuman, newline_lastRun]

theorem lastRun_ends (last : Option Time) : ∃ cell c, (lastRun pr now last).toList = cell ++ [c] ∧
    Text.isWhitespace c = false := by
  cases last with
  | none => exact ⟨"neve".toList, 'r', by simp [lastRun], rfl⟩
  | some launched =>
    exact ⟨(humanAge (pr.seconds launched now)).toList ++ " ag".toList, 'o', by simp [lastRun], rfl⟩

end Profiles

/-- A profile whose name forges a row. -/
def forged : Ipc.Profile ℕ :=
  ⟨⟨7⟩, ⟨"work\nbank", .persistent, .default, .strict, .hostProcess, .firefox, none,
    .secureDefault⟩, 0, none, ⟨4096⟩, false⟩

def plainPrinters : Printers ℕ where
  seconds a b := b - a
  rfc3339 t := toString t
  human s := toString s.bytes.toNat ++ " B"

section Profiles

variable {Time : Type} (pr : Printers Time) (now : Time)

/-- A key in a column of its own and a value, on a line. -/
def keyValue (k v : String) : String :=
  k ++ String.ofList (List.replicate (14 - k.length) ' ') ++ v ++ "\n"

def dnsModeDebug : DnsMode → String
  | .torDnsPort => "TorDnsPort"
  | .tunnelDns => "TunnelDns"
  | .proxyRemote => "ProxyRemote"
  | .staticDns => "StaticDns"

def ipv6Debug : Ipv6Policy → String
  | .block => "Block"
  | .routeThroughTunnel => "RouteThroughTunnel"

def profileDetail (p : Ipc.Profile Time) : String :=
  trimEnd (String.join [
    keyValue "id" p.id.uuid.display,
    keyValue "name" p.spec.name,
    keyValue "type" p.spec.kind.label,
    keyValue "net" p.spec.network.mode.label,
    keyValue "isolation" p.spec.isolation.label,
    keyValue "protection" p.spec.protection.label,
    keyValue "dns" (dnsModeDebug p.spec.network.dns.mode),
    keyValue "ipv6" (ipv6Debug p.spec.network.ipv6),
    keyValue "gateway" (gatewayState p),
    keyValue "age" (humanAge (pr.seconds p.createdAt now)),
    keyValue "size" (pr.human p.storage),
    keyValue "created" (pr.rfc3339 p.createdAt),
    keyValue "last run" (lastRun pr now p.lastLaunched)])

end Profiles

/-! ### Sessions -/

def protectionLabel : ProtectionStatus → String
  | .active => "protection active"
  | .partialProtection => "partial protection"
  | .unsafeConfiguration => "unsafe configuration"
  | .noProtection => "no protection"

def sessionHeaders : List String := ["ID", "PROFILE", "STATE", "PROTECTION"]

def sessionRow (s : SessionSummary) : List String :=
  [s.id.uuid.display, s.profile.uuid.display, s.state.debug.map Char.toLower,
    protectionLabel s.protection]

def sessionsTable (sessions : List SessionSummary) : String :=
  if sessions.isEmpty then "no active sessions"
  else renderTable sessionHeaders (sessions.map sessionRow)

def protectionBadge (status : ProtectionStatus) : String := "[" ++ protectionLabel status ++ "]"

/-! ### Diagnostics -/

def outcomeLabel : CheckOutcome → String
  | .pass => "pass"
  | .fail => "FAIL"
  | .skipped => "skip"

def checkLine (checklist : ConnectivityChecklist) (id : CheckId) : String :=
  match checklist.report id with
  | some r => "  [" ++ outcomeLabel r.outcome ++ "] " ++ id.asStr ++ ": " ++ r.detail ++ "\n"
  | none => "  [FAIL] " ++ id.asStr ++ ": (no report)\n"

def observedLine : Option IpObservation → String
  | some obs =>
    "  observed exit IP differs from host: " ++
      (if obs.differsFromHost then "yes" else "NO") ++ "\n"
  | none => ""

def failuresLine (failures : List CheckId) : String :=
  if failures.isEmpty then "all checks passed\n"
  else "failing checks:" ++ String.join (failures.map fun f => " " ++ f.asStr) ++ "\n"

def checklistReport (checklist : ConnectivityChecklist) : String :=
  trimEnd ("protection: " ++ protectionBadge checklist.status ++ "\n" ++
    String.join (CheckId.all.map (checkLine checklist)) ++ observedLine checklist.observedIp ++
    failuresLine checklist.failures)

def replaceFirst (pat rep s : String) : String :=
  String.ofList (Text.replaceFirst pat.toList rep.toList s.toList)

def healthLabel : HealthLevel → String
  | .ok => "ok"
  | .degraded => "degraded"
  | .down => "down"
  | .unknown => "unknown"

def evidenceLabel : EvidenceState → String
  | .configured => "configured"
  | .measured => "measured"
  | .verified => "verified"
  | .unknown => "unknown"

def itemsReport (items : List DiagnosticItem) : String :=
  if items.isEmpty then "no diagnostics items"
  else "diagnostics:\n" ++ renderTable ["SUBSYSTEM", "LEVEL", "EVIDENCE", "DETAIL"]
    (items.map fun i => [i.key, healthLabel i.level, evidenceLabel i.evidence, i.detail])

/-- The report of the checklist under the protection of the session, and the items. -/
def diagnosticsReport (protection : ProtectionStatus) (checklist : ConnectivityChecklist)
    (items : List DiagnosticItem) : String :=
  let observed := (checklist.observedIp.map IpObservation.ip).getD "-"
  trimEnd (replaceFirst (protectionLabel checklist.status) (protectionLabel protection)
      (checklistReport checklist) ++ "\n" ++
    "\npublic IP (from session): " ++ observed ++ "\n" ++ itemsReport items)

def doctorReport (checklist : ConnectivityChecklist) : String :=
  trimEnd ("doctor self-test\n" ++ checklistReport checklist)

/-! ### Policy and status -/

def isolationBadge (level : IsolationLevel) : String := "[" ++ level.label ++ "]"

def onOff (v : Bool) : String := if v then "on" else "off"

def enforcementLines (e : Enforcement) : String :=
  "vm-isolation   " ++ onOff e.requireVmIsolation ++ "\n" ++
  "gateway        " ++ onOff e.requireGateway ++ "\n" ++
  "host-browser   " ++ onOff e.allowHostBrowser ++ "\n"

def enforcementReport (e : Enforcement) : String :=
  trimEnd ("isolation      " ++ isolationBadge e.isolationLevel ++ "\n" ++ enforcementLines e)

def hostBrowser (status : StatusDto) : String :=
  match status.hostBrowserAvailable, status.hostBrowserPath with
  | true, some p => "available (" ++ p ++ ")"
  | true, none => "available"
  | false, _ => "not found"

def reducedNote : IsolationLevel → String
  | .fullVm => ""
  | .hostProcess =>
    "note           reduced protection: the site runs on your real OS, only VM isolation is " ++
      "dropped\n"

def statusReport (status : StatusDto) : String :=
  trimEnd ("version        " ++ status.version ++ "\n" ++
    "platform       " ++ status.platform ++ "\n" ++
    "isolation      " ++ isolationBadge status.isolationLevel ++ "\n" ++
    enforcementLines status.enforcement ++
    "host browser   " ++ hostBrowser status ++ "\n" ++ reducedNote status.isolationLevel)

end Aegis.Cli
