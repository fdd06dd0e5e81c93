import Mathlib.Tactic.IntervalCases
import Aegis.Core.Vm
import Aegis.Lib.Xml

/-! The libvirt domain XML of a VM, and the networks its interfaces are attached to. -/
namespace Aegis.Vm

/-- The network of the gateway's upstream NIC. -/
def upstreamNetwork : String := "default"

def escapeChar (c : Char) : List Char :=
  if c = '&' then "&amp;".toList
  else if c = '<' then "&lt;".toList
  else if c = '>' then "&gt;".toList
  else if c = '"' then "&quot;".toList
  else if c = '\'' then "&apos;".toList
  else [c]

/-- Escape the five predefined entities. -/
def xmlEscape (s : String) : String := String.ofList (s.toList.flatMap escapeChar)

def domainName (req : VmProvisionRequest) : String := req.instanceId.slug

def renderVideo : GpuBackend → String
  | .virtioGpu =>
    "    <video>\n" ++ "      <model type='virtio' heads='1'>\n" ++
      "        <acceleration accel3d='no'/>\n" ++ "      </model>\n    </video>\n"
  | .software =>
    "    <video>\n" ++ "      <model type='vga' vram='16384' heads='1'/>\n" ++ "    </video>\n"

/-- One interface on a libvirt network, with a fixed MAC. -/
def renderInterface (network mac : String) : String :=
  "    <interface type='network'>\n" ++
    ("      <mac address='" ++ xmlEscape mac ++ "'/>\n") ++
    ("      <source network='" ++ xmlEscape network ++ "'/>\n") ++
    "      <model type='virtio'/>\n    </interface>\n"

def renderDisk (req : VmProvisionRequest) : String :=
  "    <disk type='file' device='disk'>\n" ++
    "      <driver name='qemu' type='qcow2'/>\n" ++
    ("      <source file='" ++ xmlEscape req.disk.overlayPath ++ "'>\n") ++
    "        <backingStore type='file'>\n" ++
    "          <format type='qcow2'/>\n" ++
    ("          <source file='" ++ xmlEscape req.disk.backingImage ++ "'/>\n") ++
    "        </backingStore>\n" ++
    "      </source>\n" ++
    "      <target dev='vda' bus='virtio'/>\n" ++
    (if req.disk.readOnlyRoot then "      <readonly/>\n" else "") ++
    "    </disk>\n"

/-- A browser has one interface, a gateway two. -/
def renderInterfaces (req : VmProvisionRequest) (mac upstreamMac : String) : String :=
  match req.role with
  | .browser => renderInterface req.isolatedNetwork mac
  | .gateway =>
    renderInterface upstreamNetwork upstreamMac ++ renderInterface req.isolatedNetwork mac

/-- The complete domain XML for a provision request. -/
def renderDomainXmlWith (req : VmProvisionRequest) (mac upstreamMac : String) : String :=
  "<domain type='kvm'>\n" ++
    "  <name>" ++ domainName req ++ "</name>\n" ++
    "  <uuid>" ++ req.instanceId.uuid.display ++ "</uuid>\n" ++
    "  <memory unit='MiB'>" ++ toString req.resources.memoryMib.toNat ++ "</memory>\n" ++
    "  <currentMemory unit='MiB'>" ++ toString req.resources.memoryMib.toNat ++
      "</currentMemory>\n" ++
    "  <vcpu placement='static'>" ++ toString req.resources.vcpus.toNat ++ "</vcpu>\n" ++
    "  <os>\n" ++ "    <type arch='x86_64' machine='q35'>hvm</type>\n" ++
      "    <boot dev='hd'/>\n" ++ "  </os>\n" ++
    "  <features>\n" ++ "    <acpi/>\n" ++ "    <apic/>\n" ++ "  </features>\n" ++
    "  <cpu mode='host-passthrough' check='none'/>\n" ++
    "  <clock offset='utc'/>\n" ++
    "  <on_poweroff>destroy</on_poweroff>\n" ++
    "  <on_reboot>restart</on_reboot>\n" ++
    "  <on_crash>destroy</on_crash>\n" ++
    "  <devices>\n" ++ renderDisk req ++ renderInterfaces req mac upstreamMac ++
    renderVideo req.gpu ++
    "    <graphics type='vnc' port='-1' autoport='yes' listen='127.0.0.1'/>\n" ++
    "    <console type='pty'>\n" ++ "      <target type='serial' port='0'/>\n" ++
      "    </console>\n" ++
    "    <memballoon model='virtio'/>\n" ++
    "    <rng model='virtio'>\n" ++
      "      <backend model='random'>/dev/urandom</backend>\n" ++ "    </rng>\n" ++
    "  </devices>\n" ++
    "</domain>\n"

/-- The network an interface's source tag names, as it is written. -/
def sourceNetwork (tag : List Char) : Option (List Char) :=
  if "source network='".toList <+: tag ∧ "'/".toList <:+ tag then
    some ((tag.drop 16).take (tag.length - 18))
  else none

/-- The networks the interfaces of a domain are attached to, as they are written. -/
def sourceNetworks (xml : String) : List (List Char) :=
  (Xml.tags xml.toList).filterMap sourceNetwork

/-- The domain has a NIC on the network. -/
def HasNic (xml network : String) : Prop := (xmlEscape network).toList ∈ sourceNetworks xml

instance (xml network : String) : Decidable (HasNic xml network) :=
  inferInstanceAs (Decidable (_ ∈ _))

/-- The networks of a VM's NICs. -/
def networks (req : VmProvisionRequest) : List String :=
  match req.role with
  | .browser => [req.isolatedNetwork]
  | .gateway => [upstreamNetwork, req.isolatedNetwork]

/-! ### What is written stays inside its tag -/

theorem escapeChar_plain (c : Char) : '<' ∉ escapeChar c ∧ '>' ∉ escapeChar c := by
  unfold escapeChar
  split_ifs <;> simp [*, eq_comm]

theorem xmlEscape_plain (s : String) : '<' ∉ (xmlEscape s).toList ∧ '>' ∉ (xmlEscape s).toList := by
  simp only [xmlEscape, String.toList_ofList, List.mem_flatMap, not_exists, not_and]
  exact ⟨fun c _ => (escapeChar_plain c).1, fun c _ => (escapeChar_plain c).2⟩

/-- Read back one character, and what follows it. -/
def unescapeChar : List Char → Option (Char × List Char)
  | '&' :: 'a' :: 'm' :: 'p' :: ';' :: cs => some ('&', cs)
  | '&' :: 'l' :: 't' :: ';' :: cs => some ('<', cs)
  | '&' :: 'g' :: 't' :: ';' :: cs => some ('>', cs)
  | '&' :: 'q' :: 'u' :: 'o' :: 't' :: ';' :: cs => some ('"', cs)
  | '&' :: 'a' :: 'p' :: 'o' :: 's' :: ';' :: cs => some ('\'', cs)
  | c :: cs => some (c, cs)
  | [] => none

theorem unescapeChar_escapeChar (c : Char) (cs : List Char) :
    unescapeChar (escapeChar c ++ cs) = some (c, cs) := by
  unfold escapeChar
  split_ifs with hamp hlt hgt hquot hapos
  · rw [hamp]; rfl
  · rw [hlt]; rfl
  · rw [hgt]; rfl
  · rw [hquot]; rfl
  · rw [hapos]; rfl
  · simp [unescapeChar, hamp]

theorem escapeChar_prefix {c d : Char} {cs ds : List Char}
    (h : escapeChar c ++ cs = escapeChar d ++ ds) : c = d ∧ cs = ds := by
  have hread := congrArg unescapeChar h
  rw [unescapeChar_escapeChar, unescapeChar_escapeChar] at hread
  exact Prod.mk.inj (Option.some.inj hread)

/-- Different texts are written differently. -/
theorem xmlEscape_injective : Function.Injective xmlEscape := by
  have hlist (cs ds : List Char) (h : cs.flatMap escapeChar = ds.flatMap escapeChar) : cs = ds := by
    have hne (c : Char) : escapeChar c ≠ [] := by
      unfold escapeChar
      split_ifs <;> simp
    induction cs generalizing ds with
    | nil =>
      cases ds with
      | nil => rfl
      | cons d ds => simp [hne d] at h
    | cons c cs ih =>
      cases ds with
      | nil => simp [hne c] at h
      | cons d ds =>
        obtain ⟨rfl, hrest⟩ := escapeChar_prefix (by simpa using h)
        rw [ih ds hrest]
  intro a b h
  have he := congrArg String.toList h
  simp only [xmlEscape, String.toList_ofList] at he
  exact String.toList_inj.mp (hlist _ _ he)

theorem digits_plain (u : Uuid) (c : Char) (h : c ∈ u.digits) : c ≠ '<' ∧ c ≠ '>' := by
  obtain ⟨i, -, rfl⟩ := List.mem_map.mp h
  have hlt : u.toNat / 16 ^ (31 - i) % 16 < 16 := Nat.mod_lt _ (by decide)
  generalize u.toNat / 16 ^ (31 - i) % 16 = n at hlt
  interval_cases n <;> decide

theorem domainName_plain (req : VmProvisionRequest) :
    '<' ∉ (domainName req).toList ∧ '>' ∉ (domainName req).toList := by
  have hdigits (c : Char) (h : c ∈ req.instanceId.uuid.digits.take 8) : c ≠ '<' ∧ c ≠ '>' :=
    digits_plain _ _ (List.mem_of_mem_take h)
  constructor
  · intro h
    simp [domainName, InstanceId.slug, Uuid.slug] at h
    exact (hdigits _ h).1 rfl
  · intro h
    simp [domainName, InstanceId.slug, Uuid.slug] at h
    exact (hdigits _ h).2 rfl

/-! ### The networks of the rendered domain -/

open Xml

/-- A part of a document, of whole elements, and the networks its source tags name. -/
def Attaches (s : String) (ns : List (List Char)) : Prop :=
  ∃ us, Reading.text ⟨[], none⟩ s.toList = ⟨us, none⟩ ∧ us.filterMap sourceNetwork = ns

theorem Attaches.append {s s' : String} {ms ns : List (List Char)} (h : Attaches s ms)
    (h' : Attaches s' ns) : Attaches (s ++ s') (ms ++ ns) := by
  obtain ⟨us, hread, rfl⟩ := h
  obtain ⟨vs, hread', rfl⟩ := h'
  refine ⟨us ++ vs, ?_, List.filterMap_append⟩
  rw [String.toList_append, Reading.text_append, hread]
  have hshift := Reading.text_shift us ⟨[], none⟩ s'.toList
  rw [List.append_nil, hread'] at hshift
  exact hshift

theorem Attaches.before {s s' : String} {ns : List (List Char)} (h' : Attaches s' ns)
    (h : Attaches s []) : Attaches (s ++ s') ns := h.append h'

theorem Attaches.after {s s' : String} {ns : List (List Char)} (h : Attaches s ns)
    (h' : Attaches s' []) : Attaches (s ++ s') ns := by
  have happend := h.append h'
  rwa [List.append_nil] at happend

theorem attaches_plain {s : String} (h : '<' ∉ s.toList) : Attaches s [] :=
  ⟨[], Reading.text_outside h _, rfl⟩

/-- A tag with a text inside that does not close it. -/
theorem attaches_tag {p q v : String} (t u : List Char)
    (hp : Reading.text ⟨[], none⟩ p.toList = ⟨[], some t⟩) (hv : '>' ∉ v.toList)
    (hq : Reading.text ⟨[], some []⟩ q.toList = ⟨[u], none⟩) :
    Attaches (p ++ v ++ q) (sourceNetwork (t ++ v.toList ++ u)).toList := by
  refine ⟨[t ++ v.toList ++ u], ?_, ?_⟩
  · rw [String.toList_append, String.toList_append, Reading.text_append, Reading.text_append, hp,
      Reading.text_inside hv, Reading.text_open hq]
    rfl
  · cases h : sourceNetwork (t ++ v.toList ++ u) <;> simp only [List.filterMap_cons, h] <;> rfl

theorem sourceNetwork_source (name : List Char) :
    sourceNetwork ("source network='".toList ++ name ++ "'/".toList) = some name := by
  have hstart : "source network='".toList <+: "source network='".toList ++ name ++ "'/".toList :=
    ⟨name ++ "'/".toList, by rw [List.append_assoc]⟩
  unfold sourceNetwork
  rw [if_pos ⟨hstart, List.suffix_append _ _⟩]
  simp

theorem sourceNetwork_other {t : List Char} (h : ¬ "source network='".toList <+: t) :
    sourceNetwork t = none := if_neg fun hboth => h hboth.1

/-- A part that closes its tags, none of which begins as a source tag on a network does. -/
def Closed (cs : List Char) : Prop :=
  (Reading.text ⟨[], none⟩ cs).pending = none ∧
    ∀ t ∈ tags cs, t.take 8 ≠ ['s', 'o', 'u', 'r', 'c', 'e', ' ', 'n']

instance (cs : List Char) : Decidable (Closed cs) := inferInstanceAs (Decidable (_ ∧ _))

theorem attaches_closed {cs : List Char} (h : Closed cs) : Attaches (String.ofList cs) [] := by
  refine ⟨tags cs, ?_, List.filterMap_eq_nil_iff.mpr fun t ht => ?_⟩
  · rw [String.toList_ofList]
    exact congrArg (Reading.mk _) h.1
  · apply sourceNetwork_other
    rintro ⟨u, rfl⟩
    exact h.2 _ ht (by simp)

/-- One more line, whose tags name no network. -/
theorem Attaches.line {s : String} {cs : List Char} {ns : List (List Char)} (h : Attaches s ns)
    (h' : Closed cs) : Attaches (s ++ String.ofList cs) ns :=
  h.after (attaches_closed h')

theorem attaches_other {p q v : String} (t u : List Char)
    (hp : Reading.text ⟨[], none⟩ p.toList = ⟨[], some t⟩) (hv : '>' ∉ v.toList)
    (hq : Reading.text ⟨[], some []⟩ q.toList = ⟨[u], none⟩)
    (h : ¬ "source network='".toList <+: t ++ v.toList ++ u) : Attaches (p ++ v ++ q) [] := by
  have htag := attaches_tag t u hp hv hq
  rw [sourceNetwork_other h] at htag
  exact htag

theorem renderInterface_attaches (network mac : String) :
    Attaches (renderInterface network mac) [(xmlEscape network).toList] := by
  have hopen : Attaches "    <interface type='network'>\n" [] := attaches_closed (by decide +kernel)
  have hmac : Attaches ("      <mac address='" ++ xmlEscape mac ++ "'/>\n") [] :=
    attaches_other "mac address='".toList "'/".toList rfl (xmlEscape_plain mac).2 rfl (by simp)
  have hsource : Attaches ("      <source network='" ++ xmlEscape network ++ "'/>\n")
      [(xmlEscape network).toList] := by
    have h := attaches_tag (p := "      <source network='") (q := "'/>\n")
      "source network='".toList "'/".toList rfl (xmlEscape_plain network).2 rfl
    rw [sourceNetwork_source] at h
    exact h
  have hclose : Attaches "      <model type='virtio'/>\n    </interface>\n" [] :=
    attaches_closed (by decide +kernel)
  exact ((hopen.append hmac).append hsource).append hclose

theorem renderInterfaces_attaches (req : VmProvisionRequest) (mac upstreamMac : String) :
    Attaches (renderInterfaces req mac upstreamMac)
      ((networks req).map fun n => (xmlEscape n).toList) := by
  unfold renderInterfaces networks
  cases req.role with
  | browser => exact renderInterface_attaches _ _
  | gateway => exact (renderInterface_attaches _ _).append (renderInterface_attaches _ _)

theorem renderDisk_attaches (req : VmProvisionRequest) : Attaches (renderDisk req) [] := by
  have hoverlay : Attaches ("      <source file='" ++ xmlEscape req.disk.overlayPath ++ "'>\n")
      [] :=
    attaches_other "source file='".toList "'".toList rfl (xmlEscape_plain _).2 rfl (by simp)
  have hbacking : Attaches
      ("          <source file='" ++ xmlEscape req.disk.backingImage ++ "'/>\n") [] :=
    attaches_other "source file='".toList "'/".toList rfl (xmlEscape_plain _).2 rfl (by simp)
  have hreadonly : Attaches (if req.disk.readOnlyRoot then "      <readonly/>\n" else "") [] := by
    split_ifs <;> exact attaches_closed (by decide +kernel)
  refine .line (.after (.line (.line (.line (.after (.line (.line (.after (.line ?_ ?_)
    hoverlay) ?_)
    ?_) hbacking) ?_) ?_) ?_) hreadonly) ?_
  · exact attaches_closed (by decide +kernel)
  all_goals decide +kernel

theorem renderVideo_attaches (gpu : GpuBackend) : Attaches (renderVideo gpu) [] := by
  cases gpu with
  | virtioGpu =>
    exact .line (.line (.line (attaches_closed (by decide +kernel)) (by decide +kernel))
      (by decide +kernel)) (by decide +kernel)
  | software =>
    exact .line (.line (attaches_closed (by decide +kernel)) (by decide +kernel))
      (by decide +kernel)

theorem decimal_plain (n : ℕ) : '<' ∉ (toString n).toList := by
  intro h
  have hdigit : '<' ∈ Nat.toDigits 10 n := by
    have hrepr : (toString n).toList = Nat.toDigits 10 n := String.toList_ofList
    rwa [hrepr] at h
  exact absurd (Nat.isDigit_of_mem_toDigits (by decide) (by decide) hdigit) (by decide)

theorem display_plain (u : Uuid) : '<' ∉ u.display.toList := by
  have hdigits : '<' ∉ u.digits := fun h => (digits_plain u _ h).1 rfl
  have htake (n k : ℕ) : '<' ∉ (u.digits.drop n).take k := fun h =>
    hdigits (List.mem_of_mem_drop (List.mem_of_mem_take h))
  have hhead : '<' ∉ u.digits.take 8 := fun h => hdigits (List.mem_of_mem_take h)
  have hlast : '<' ∉ u.digits.drop 20 := fun h => hdigits (List.mem_of_mem_drop h)
  simp [Uuid.display, htake, hhead, hlast]

/-- A rendered domain has NICs on the networks of its VM, in this order, and on no other. -/
theorem sourceNetworks_renderDomainXmlWith (req : VmProvisionRequest) (mac upstreamMac : String) :
    sourceNetworks (renderDomainXmlWith req mac upstreamMac) =
      (networks req).map fun n => (xmlEscape n).toList := by
  have hname := attaches_plain (domainName_plain req).1
  have huuid := attaches_plain (display_plain req.instanceId.uuid)
  have hmem := attaches_plain (decimal_plain req.resources.memoryMib.toNat)
  have hvcpus := attaches_plain (decimal_plain req.resources.vcpus.toNat)
  have hwhole : Attaches (renderDomainXmlWith req mac upstreamMac)
      ((networks req).map fun n => (xmlEscape n).toList) := by
    unfold renderDomainXmlWith
    iterate 10 refine .line ?_ (by decide +kernel)
    refine .after (.before (renderInterfaces_attaches req mac upstreamMac) (.after ?_
      (renderDisk_attaches req))) (renderVideo_attaches req.gpu)
    iterate 15 refine .line ?_ (by decide +kernel)
    refine .after (.line (.line (.after (.line (.line (.after (.line (.line (.after (.line (.line
      (.after (.line ?_ ?_) hname) ?_) ?_) huuid) ?_) ?_) hmem) ?_) ?_) hmem) ?_) ?_) hvcpus
    · exact attaches_closed (by decide +kernel)
    all_goals decide +kernel
  obtain ⟨us, hread, hus⟩ := hwhole
  unfold sourceNetworks tags
  rw [hread, hus]

theorem hasNic_renderDomainXmlWith (req : VmProvisionRequest) (mac upstreamMac network : String) :
    HasNic (renderDomainXmlWith req mac upstreamMac) network ↔ network ∈ networks req := by
  unfold HasNic
  rw [sourceNetworks_renderDomainXmlWith, List.mem_map]
  constructor
  · rintro ⟨n, hn, he⟩
    exact xmlEscape_injective (String.toList_inj.mp he) ▸ hn
  · exact fun hn => ⟨network, hn, rfl⟩

end Aegis.Vm
