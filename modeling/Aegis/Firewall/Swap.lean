import Aegis.Firewall.Files

/-! Swapping the armed set and the kill switch: what a sequence of loads leaves in the kernel, and
when a packet meets the verdict of the last load alone. -/
namespace Aegis.Firewall
open Nft

/-- The chains of a kill-switch table that was loaded `n + 1` times. -/
def pile : ℕ → List Chain
  | 0 => loopbackChains
  | n + 1 => loopbackChains.foldl addChain (pile n)

/-- The tables of the kill switch with the given chains. -/
def lockTables (chains : List Chain) : Source → List Table
  | .firewallDir => [⟨.inet, "killswitch", chains⟩]
  | .gatewayImage => [⟨.inet, "aegis_lock", chains⟩, ⟨.ip6, "aegis_lock6", chains⟩]

/-- The kill-switch tables after `n + 1` loads. -/
def locks (n : ℕ) (src : Source) : List Table := lockTables (pile n) src

def armedTables : List Table := [ip6Filter, ipNat, inetFilter]

/-- What a sequence of loads can leave; `n` counts the repeated loads of the kill switch. -/
inductive Stage where
  | bare
  | armed
  /-- The kill switch alone. -/
  | locked (n : ℕ)
  /-- The kill switch, loaded over the armed set: the IPv6 block stays. -/
  | lockedOver (n : ℕ)
  /-- The kill switch, loaded once more over an armed set that was loaded over it. -/
  | lockedAgain (n : ℕ)
  /-- The armed set, loaded over the kill switch: all tables of the kill switch stay. -/
  | rearmed (n : ℕ)

def Stage.tables (src : Source) : Stage → List Table
  | bare => []
  | armed => armedTables
  | locked n => locks n src
  | lockedOver n => ip6Filter :: locks n src
  | lockedAgain n => locks n src ++ [ip6Filter]
  | rearmed n => locks n src ++ armedTables

/-- The kill switch of the gateway image deletes the IPv6 block as well. -/
def Stage.next (src : Source) : Stage → Load → Stage
  | bare, .armed | armed, .armed => armed
  | locked n, .armed | lockedOver n, .armed | lockedAgain n, .armed | rearmed n, .armed => rearmed n
  | bare, .killswitch => locked 0
  | locked n, .killswitch => locked (n + 1)
  | armed, .killswitch => match src with
    | .firewallDir => lockedOver 0
    | .gatewayImage => locked 0
  | lockedOver n, .killswitch => match src with
    | .firewallDir => lockedOver (n + 1)
    | .gatewayImage => locked (n + 1)
  | lockedAgain n, .killswitch | rearmed n, .killswitch => match src with
    | .firewallDir => lockedAgain (n + 1)
    | .gatewayImage => locked (n + 1)

theorem loadAll_append (src : Source) (tables : List Table) (ls : List Load) (l : Load) :
    loadAll src tables (ls ++ [l]) = (loadAll src tables ls).bind fun rest =>
      loadAll src rest [l] := by
  simp [loadAll]

theorem ip6Filter_family : ip6Filter.family = .ip6 ∧ ip6Filter.name = "filter" := ⟨rfl, rfl⟩
theorem ipNat_family : ipNat.family = .ip ∧ ipNat.name = "nat" := ⟨rfl, rfl⟩
theorem inetFilter_family : inetFilter.family = .inet ∧ inetFilter.name = "filter" := ⟨rfl, rfl⟩

/-- The tables the armed set replaces. -/
def armedOwns (t : Table) : Bool := t.is .ip6 "filter" || t.is .ip "nat" || t.is .inet "filter"

/-- The armed set replaces its three tables and leaves the others. -/
theorem load_armed (src : Source) (tables : List Table) :
    loadAll src tables [.armed] = some (tables.filter (fun t => !armedOwns t) ++ armedTables) := by
  have hreplace (ts : List Table) (t : Table) :
      load ts (replace t) = some (ts.filter (fun u => !u.is t.family t.name) ++ [t]) :=
    load_replace ts t
  have hfilter : tables.filter (fun t => !armedOwns t) =
      ((tables.filter (fun t => !t.is .ip6 "filter")).filter (fun t => !t.is .ip "nat")).filter
        (fun t => !t.is .inet "filter") := by
    rw [List.filter_filter, List.filter_filter]
    refine List.filter_congr fun t _ => ?_
    cases h6 : t.is .ip6 "filter" <;> cases h4 : t.is .ip "nat" <;>
      cases h : t.is .inet "filter" <;> simp [armedOwns, h6, h4, h]
  have hdisjoint : ip6Filter.is .ip "nat" = false ∧ ip6Filter.is .inet "filter" = false ∧
      ipNat.is .inet "filter" = false := by decide
  have hset : (load tables (replace ip6Filter)).bind (fun ts => (load ts (replace ipNat)).bind
      fun ts => load ts (replace inetFilter)) =
      some (tables.filter (fun t => !armedOwns t) ++ armedTables) := by
    rw [hfilter]
    simp [-List.filter_filter, hreplace, ip6Filter_family, ipNat_family, inetFilter_family,
      hdisjoint, armedTables]
  cases src with
  | firewallDir => simpa [loadAll, Load.scripts] using hset
  | gatewayImage => simpa [loadAll, Load.scripts, load_append] using hset

theorem load_remove_append (tables : List Table) (f : Family) (n : String) (rest : List Command) :
    load tables (remove f n ++ rest) = load (tables.filter fun t => !t.is f n) rest := by
  rw [load_append, remove, load_remove]
  rfl

/-- The kill switch removes the armed set, but the IPv6 block in one of its scripts only, and adds
its own tables. -/
theorem load_killswitch (tables : List Table) :
    loadAll .firewallDir tables [.killswitch] =
      load ((tables.filter fun t => !t.is .inet "filter").filter fun t => !t.is .ip "nat")
        [.table killswitch] ∧
    loadAll .gatewayImage tables [.killswitch] =
      load (((tables.filter fun t => !t.is .inet "filter").filter fun t => !t.is .ip "nat").filter
        fun t => !t.is .ip6 "filter") [.table aegisLock, .table aegisLock6] := by
  constructor
  · simp only [loadAll, Load.scripts, List.foldlM_cons, List.foldlM_nil, bind_pure]
    rw [List.append_assoc, load_remove_append, load_remove_append]
  · simp only [loadAll, Load.scripts, List.foldlM_cons, List.foldlM_nil, bind_pure]
    rw [List.append_assoc, List.append_assoc, load_remove_append, load_remove_append,
      load_remove_append]

/-- Whatever a sequence left, the next load leaves the next stage. -/
theorem loadAll_stage (src : Source) (stage : Stage) (l : Load) :
    loadAll src (stage.tables src) [l] = some ((stage.next src l).tables src) := by
  cases l with
  | armed =>
    rw [load_armed]
    cases src <;> cases stage <;> rfl
  | killswitch =>
    cases src with
    | firewallDir =>
      rw [(load_killswitch _).1]
      cases stage <;> rfl
    | gatewayImage =>
      rw [(load_killswitch _).2]
      cases stage <;> rfl

/-- The stage a sequence of loads leaves. -/
def Stage.after (src : Source) (ls : List Load) : Stage := ls.foldl (Stage.next src) .bare

theorem Stage.after_append (src : Source) (ls : List Load) (l : Load) :
    Stage.after src (ls ++ [l]) = (Stage.after src ls).next src l := by
  simp [Stage.after]

/-- No sequence of loads fails, and what it leaves is the tables of its stage. -/
theorem loadAll_after (src : Source) (ls : List Load) :
    loadAll src [] ls = some ((Stage.after src ls).tables src) := by
  induction ls using List.reverseRecOn with
  | nil => rfl
  | append_singleton ls l ih =>
    rw [loadAll_append, ih, Option.bind_some, loadAll_stage, Stage.after_append]

/-- Without a load of the kill switch only the armed set is there. -/
theorem Stage.after_armed (src : Source) {ls : List Load} (h : .killswitch ∉ ls) :
    Stage.after src ls = .bare ∨ Stage.after src ls = .armed := by
  induction ls using List.reverseRecOn with
  | nil => exact Or.inl rfl
  | append_singleton ls l ih =>
    rw [Stage.after_append]
    cases l with
    | killswitch => simp at h
    | armed => rcases ih (by simpa using h) with h' | h' <;> rw [h'] <;> exact Or.inr rfl

/-- After a load of the kill switch its tables never leave. -/
theorem Stage.after_killswitch (src : Source) {ls : List Load} (h : .killswitch ∈ ls) :
    ∃ n, Stage.after src (ls ++ [.armed]) = .rearmed n := by
  have hstep (stage : Stage) (l : Load)
      (hlock : l = .killswitch ∨ ∃ n, stage.next src .armed = .rearmed n) :
      ∃ n, (stage.next src l).next src .armed = .rearmed n := by
    cases src <;> cases stage <;> cases l <;> simp_all [Stage.next]
  induction ls using List.reverseRecOn with
  | nil => simp at h
  | append_singleton ls l ih =>
    rw [Stage.after_append, Stage.after_append]
    refine hstep _ _ ?_
    rcases List.mem_append.mp h with h | h
    · exact Or.inr (by simpa [Stage.after_append] using ih h)
    · exact Or.inl (List.mem_singleton.mp h).symm

theorem pile_eq (n : ℕ) : pile n =
    [dropChain .input (List.replicate (n + 1) acceptIif), dropChain .forward [],
      dropChain .output (List.replicate (n + 1) acceptOif)] := by
  induction n with
  | zero => rfl
  | succ n ih =>
    rw [pile, ih]
    simp [loopbackChains, addChain, dropChain, Hook.script, List.replicate_succ']

/-- The repeated rules of the kill switch change no verdict. -/
theorem verdict_pile (f : Family) (name : String) (n : ℕ) (hook : Hook) (p : Packet) :
    verdict [⟨f, name, pile n⟩] hook p = verdict [⟨f, name, loopbackChains⟩] hook p := by
  have haccepts (hook : Hook) (r : Rule) : (dropChain hook (List.replicate (n + 1) r)).accepts p =
      (dropChain hook [r]).accepts p := by
    have hfirst : firstMatch p (dropChain hook (List.replicate (n + 1) r)).rules =
        firstMatch p (dropChain hook [r]).rules := firstMatch_replicate p r n
    simp only [Chain.accepts, hfirst]
    rfl
  have hhook (hook : Hook) (rules : List Rule) : (dropChain hook rules).hook = hook ∧
      (dropChain hook rules).type = .filter := ⟨rfl, rfl⟩
  rw [pile_eq]
  cases hook <;>
    simp [verdict, passes, chainsOn, loopbackChains, haccepts, hhook]

theorem verdict_locks (n : ℕ) (src : Source) (hook : Hook) (p : Packet) :
    verdict (locks n src) hook p = verdict (locks 0 src) hook p := by
  cases src with
  | firewallDir => exact verdict_pile .inet "killswitch" n hook p
  | gatewayImage =>
    simp only [locks, lockTables]
    rw [verdict_cons, verdict_pile, verdict_pile, ← verdict_cons]
    rfl

/-- The IPv6 block drops nothing that the kill switch of the firewall directory does not drop. -/
theorem verdict_ip6Filter {hook : Hook} {p : Packet}
    (h : verdict (locks 0 .firewallDir) hook p = true) : verdict [ip6Filter] hook p = true :=
  verdict_of_inet h

/-- After a load of the kill switch only its own verdict counts. -/
theorem verdict_killswitch (src : Source) (stage : Stage) (hook : Hook) (p : Packet) :
    verdict ((stage.next src .killswitch).tables src) hook p = verdict (locks 0 src) hook p := by
  have hblock : (verdict (locks 0 .firewallDir) hook p && verdict [ip6Filter] hook p) =
      verdict (locks 0 .firewallDir) hook p := by
    cases h : verdict (locks 0 .firewallDir) hook p with
    | false => rfl
    | true => rw [verdict_ip6Filter h]; rfl
  have hover (n : ℕ) : verdict (ip6Filter :: locks n .firewallDir) hook p =
      verdict (locks 0 .firewallDir) hook p := by
    rw [verdict_cons, verdict_locks, Bool.and_comm, hblock]
  have hagain (n : ℕ) : verdict (locks n .firewallDir ++ [ip6Filter]) hook p =
      verdict (locks 0 .firewallDir) hook p := by
    rw [verdict_append, verdict_locks, hblock]
  cases src <;> cases stage <;>
    first
    | exact verdict_locks _ _ hook p
    | exact hover _
    | exact hagain _

/-- A new connection of the gateway itself, out of its upstream interface. -/
def upstream : Packet where
  iif := ""
  oif := upIf
  net := .ipv4 0 0
  transport := .tcp 0 443 0
  ct := .new

/-- The armed set lets the gateway open connections upstream, the kill switch does not. -/
theorem verdict_upstream (src : Source) : verdict armedTables .output upstream = true ∧
    verdict (locks 0 src) .output upstream = false := by
  cases src <;> decide

/-- A sequence of loads has the verdict of its last load alone exactly where that load is the kill
switch or no load of the kill switch came before it. -/
theorem lastLoad_iff (src : Source) (ls : List Load) (l : Load) :
    (∃ tables alone, loadAll src [] (ls ++ [l]) = some tables ∧ loadAll src [] [l] = some alone ∧
      ∀ hook p, verdict tables hook p = verdict alone hook p) ↔
    l = .killswitch ∨ .killswitch ∉ ls := by
  have halone := loadAll_after src [l]
  simp only [loadAll_after, Option.some.injEq, exists_and_left, exists_eq_left']
  cases l with
  | killswitch =>
    refine ⟨fun _ => Or.inl rfl, fun _ hook p => ?_⟩
    rw [Stage.after_append, verdict_killswitch]
    exact (verdict_killswitch src .bare hook p).symm
  | armed =>
    constructor
    · intro h
      refine Or.inr fun hmem => ?_
      obtain ⟨n, hn⟩ := Stage.after_killswitch src hmem
      have hup := h .output upstream
      rw [hn] at hup
      change verdict (locks n src ++ armedTables) _ _ = verdict armedTables _ _ at hup
      obtain ⟨harmed, hlock⟩ := verdict_upstream src
      rw [verdict_append, verdict_locks, harmed, hlock] at hup
      cases hup
    · rintro (h | h) hook p
      · cases h
      · rw [Stage.after_append]
        rcases Stage.after_armed src h with h | h <;> rw [h] <;> rfl

/-- After the kill switch of the firewall directory, loading the armed set leaves the gateway cut
off. -/
theorem lastLoad_rearmed : ∃ tables alone,
    loadAll .firewallDir [] ([.killswitch] ++ [.armed]) = some tables ∧
    loadAll .firewallDir [] [.armed] = some alone ∧
    verdict tables .output upstream = false ∧ verdict alone .output upstream = true :=
  ⟨_, _, loadAll_after _ _, loadAll_after _ _, by decide, by decide⟩

end Aegis.Firewall
