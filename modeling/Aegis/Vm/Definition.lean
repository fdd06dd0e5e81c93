import Aegis.Lib.XmlTree
import Aegis.Vm.Domain

/-! The domain XML read back: the elements it consists of, with the strings of the request as the
values of their attributes and nowhere else. -/
namespace Aegis.Vm
open Xml Element

/-! ### The elements of a domain -/

def interfaceElement (network mac : String) : Element :=
  .mk "interface" [("type", "network")] ""
    [.mk "mac" [("address", mac)] "" [], .mk "source" [("network", network)] "" [],
      .mk "model" [("type", "virtio")] "" []]

def diskElement (overlay backing : String) (readOnly : Bool) : Element :=
  .mk "disk" [("type", "file"), ("device", "disk")] ""
    ([.mk "driver" [("name", "qemu"), ("type", "qcow2")] "" [],
      .mk "source" [("file", overlay)] ""
        [.mk "backingStore" [("type", "file")] ""
          [.mk "format" [("type", "qcow2")] "" [], .mk "source" [("file", backing)] "" []]],
      .mk "target" [("dev", "vda"), ("bus", "virtio")] "" []] ++
      if readOnly then [.mk "readonly" [] "" []] else [])

def videoElement : GpuBackend → Element
  | .virtioGpu =>
    .mk "video" [] "" [.mk "model" [("type", "virtio"), ("heads", "1")] ""
      [.mk "acceleration" [("accel3d", "no")] "" []]]
  | .software =>
    .mk "video" [] "" [.mk "model" [("type", "vga"), ("vram", "16384"), ("heads", "1")] "" []]

/-- The NICs of a VM, each by its network and MAC. -/
def nics (req : VmProvisionRequest) (mac upstreamMac : String) : List (String × String) :=
  match req.role with
  | .browser => [(req.isolatedNetwork, mac)]
  | .gateway => [(upstreamNetwork, upstreamMac), (req.isolatedNetwork, mac)]

/-- The elements between the vCPU count and the devices. -/
def platformElements : List Element :=
  [.mk "os" [] ""
      [.mk "type" [("arch", "x86_64"), ("machine", "q35")] "hvm" [],
        .mk "boot" [("dev", "hd")] "" []],
    .mk "features" [] "" [.mk "acpi" [] "" [], .mk "apic" [] "" []],
    .mk "cpu" [("mode", "host-passthrough"), ("check", "none")] "" [],
    .mk "clock" [("offset", "utc")] "" [],
    .mk "on_poweroff" [] "destroy" [],
    .mk "on_reboot" [] "restart" [],
    .mk "on_crash" [] "destroy" []]

/-- The devices behind the video. -/
def consoleElements : List Element :=
  [.mk "graphics" [("type", "vnc"), ("port", "-1"), ("autoport", "yes"), ("listen", "127.0.0.1")] ""
      [],
    .mk "console" [("type", "pty")] "" [.mk "target" [("type", "serial"), ("port", "0")] "" []],
    .mk "memballoon" [("model", "virtio")] "" [],
    .mk "rng" [("model", "virtio")] "" [.mk "backend" [("model", "random")] "/dev/urandom" []]]

def deviceElements (req : VmProvisionRequest) (mac upstreamMac : String) : List Element :=
  diskElement req.disk.overlayPath req.disk.backingImage req.disk.readOnlyRoot ::
    ((nics req mac upstreamMac).map fun n => interfaceElement n.1 n.2) ++
    videoElement req.gpu :: consoleElements

/-- The domain of a request. -/
def domainElement (req : VmProvisionRequest) (mac upstreamMac : String) : Element :=
  .mk "domain" [("type", "kvm")] ""
    ([.mk "name" [] (domainName req) [],
      .mk "uuid" [] req.instanceId.uuid.display [],
      .mk "memory" [("unit", "MiB")] (toString req.resources.memoryMib.toNat) [],
      .mk "currentMemory" [("unit", "MiB")] (toString req.resources.memoryMib.toNat) [],
      .mk "vcpu" [("placement", "static")] (toString req.resources.vcpus.toNat) []] ++
      platformElements ++
      [.mk "devices" [] "" (deviceElements req mac upstreamMac)])

/-! ### Escaping -/

theorem escapes_escapeChar : Escapes escapeChar := by
  intro c
  unfold escapeChar
  split_ifs with hamp hlt hgt hquot hapos
  · exact .inr ⟨"amp".toList, rfl, by decide, by rw [hamp]; rfl⟩
  · exact .inr ⟨"lt".toList, rfl, by decide, by rw [hlt]; rfl⟩
  · exact .inr ⟨"gt".toList, rfl, by decide, by rw [hgt]; rfl⟩
  · exact .inr ⟨"quot".toList, rfl, by decide, by rw [hquot]; rfl⟩
  · exact .inr ⟨"apos".toList, rfl, by decide, by rw [hapos]; rfl⟩
  · exact .inl ⟨rfl, hlt, hamp, hapos⟩

/-- A text of characters that names have. -/
structure Word (s : String) : Prop where
  nonempty : s.toList ≠ []
  plain : ∀ c ∈ s.toList, isNameChar c = true

namespace Word

variable {s : String}

theorem escape (h : Word s) : s.toList.flatMap escapeChar = s.toList := by
  have hall : ∀ cs : List Char, (∀ c ∈ cs, isNameChar c = true) → cs.flatMap escapeChar = cs := by
    intro cs hcs
    induction cs with
    | nil => rfl
    | cons c cs ih =>
      obtain ⟨hc, hcs⟩ := List.forall_mem_cons.mp hcs
      have hne {d : Char} (hd : isNameChar d = false) : c ≠ d := by
        rintro rfl
        rw [hc] at hd
        cases hd
      have hself : escapeChar c = [c] := by
        unfold escapeChar
        rw [if_neg (hne (by decide)), if_neg (hne (by decide)), if_neg (hne (by decide)),
          if_neg (hne (by decide)), if_neg (hne (by decide))]
      rw [List.flatMap_cons, hself, ih hcs, List.singleton_append]
  exact hall _ h.plain

theorem not_spaces (h : Word s) : s.toList.all isSpace = false := by
  obtain ⟨c, cs, hcons⟩ := List.exists_cons_of_ne_nil h.nonempty
  have hc : isNameChar c = true := h.plain c (by simp [hcons])
  have hspace : isSpace c = false := by
    by_contra hspace
    simp only [isSpace, Bool.not_eq_false, Bool.or_eq_true, decide_eq_true_eq] at hspace
    rcases hspace with ((rfl | rfl) | rfl) | rfl <;> exact absurd hc (by decide)
  rw [hcons, List.all_cons, hspace, Bool.false_and]

theorem ne_empty (h : Word s) : s ≠ "" := by
  rintro rfl
  exact h.nonempty rfl

end Word

theorem isNameChar_digits (u : Uuid) (c : Char) (h : c ∈ u.digits) : isNameChar c = true := by
  obtain ⟨i, -, rfl⟩ := List.mem_map.mp h
  have hall : ∀ n : Fin 16, isNameChar (Nat.digitChar n) = true := by decide
  exact hall ⟨_, Nat.mod_lt _ (by decide)⟩

theorem word_domainName (req : VmProvisionRequest) : Word (domainName req) := by
  have htext : (domainName req).toList = "inst-".toList ++ req.instanceId.uuid.digits.take 8 := by
    simp [domainName, InstanceId.slug, Uuid.slug]
  refine ⟨by simp [htext], fun c hc => ?_⟩
  rw [htext] at hc
  rcases List.mem_append.mp hc with hc | hc
  · have hall : "inst-".toList.all isNameChar = true := by decide
    exact List.all_eq_true.mp hall c hc
  · exact isNameChar_digits _ _ (List.mem_of_mem_take hc)

theorem word_display (u : Uuid) : Word u.display := by
  have hpart (n k : ℕ) (c : Char) (h : c ∈ (u.digits.drop n).take k) : isNameChar c = true :=
    isNameChar_digits u c (List.mem_of_mem_drop (List.mem_of_mem_take h))
  have hhead (c : Char) (h : c ∈ u.digits.take 8) : isNameChar c = true :=
    isNameChar_digits u c (List.mem_of_mem_take h)
  have hlast (c : Char) (h : c ∈ u.digits.drop 20) : isNameChar c = true :=
    isNameChar_digits u c (List.mem_of_mem_drop h)
  have hdash : isNameChar '-' = true := by decide
  refine ⟨by simp [Uuid.display], fun c hc => ?_⟩
  simp only [Uuid.display, String.toList_ofList, List.mem_append, List.mem_cons] at hc
  rcases hc with (((hc | rfl | hc) | rfl | hc) | rfl | hc) | rfl | hc
  · exact hhead c hc
  · exact hdash
  · exact hpart 8 4 c hc
  · exact hdash
  · exact hpart 12 4 c hc
  · exact hdash
  · exact hpart 16 4 c hc
  · exact hdash
  · exact hlast c hc

theorem word_toString (n : ℕ) : Word (toString n) := by
  have htext : (toString n).toList = Nat.toDigits 10 n := String.toList_ofList
  refine ⟨by rw [htext]; exact Nat.toDigits_ne_nil, fun c hc => ?_⟩
  rw [htext] at hc
  have hdigit := Nat.isDigit_of_mem_toDigits (by decide) (by decide) hc
  unfold isNameChar Char.isAlphanum
  simp [hdigit]

/-! ### The domain XML is the printed domain -/

/-- A text of whole lines is what elements are printed as. -/
def Prints (depth : ℕ) (s : String) (es : List Element) : Prop :=
  s.toList = printAll escapeChar depth es

instance (depth : ℕ) (s : String) (es : List Element) : Decidable (Prints depth s es) :=
  inferInstanceAs (Decidable (_ = _))

namespace Prints

variable {depth : ℕ} {s s' : String} {es es' : List Element}

theorem append (h : Prints depth s es) (h' : Prints depth s' es') :
    Prints depth (s ++ s') (es ++ es') := by
  unfold Prints at *
  rw [String.toList_append, printAll_append, h, h']

/-- Children between the lines of a start and an end tag. -/
theorem element {opening closing name : String} {attributes : List (String × String)}
    (hopening : opening.toList = indent depth ++ printStart escapeChar name attributes ++
      ['>', '\n'])
    (hclosing : closing.toList = indent depth ++ printEnd name ++ ['\n']) (hne : es ≠ [])
    (h : Prints (depth + 1) s es) :
    Prints depth (opening ++ s ++ closing) [.mk name attributes "" es] := by
  unfold Prints at *
  obtain ⟨e, es, rfl⟩ := List.exists_cons_of_ne_nil hne
  rw [String.toList_append, String.toList_append, hopening, hclosing, h]
  simp [printAll, print]

/-- An element with one attribute, whose value is escaped. -/
theorem value {opening name key : String} (value : String)
    (hopening : opening.toList =
      indent depth ++ '<' :: name.toList ++ ' ' :: key.toList ++ ['=', '\'']) :
    Prints depth (opening ++ xmlEscape value ++ "'/>\n") [.mk name [(key, value)] "" []] := by
  have hend : "'/>\n".toList = ['\'', '/', '>', '\n'] := rfl
  unfold Prints
  rw [String.toList_append, String.toList_append, hopening, hend]
  simp [printAll, print, printStart, printAttribute, xmlEscape]

/-- The same for the attribute of an element with children. -/
theorem value_open {opening name key closing : String} (value : String)
    (hopening : opening.toList =
      indent depth ++ '<' :: name.toList ++ ' ' :: key.toList ++ ['=', '\''])
    (hclosing : closing.toList = indent depth ++ printEnd name ++ ['\n']) (hne : es ≠ [])
    (h : Prints (depth + 1) s es) :
    Prints depth (opening ++ xmlEscape value ++ "'>\n" ++ s ++ closing)
      [.mk name [(key, value)] "" es] := by
  have hend : "'>\n".toList = ['\'', '>', '\n'] := rfl
  refine element ?_ hclosing hne h
  rw [String.toList_append, String.toList_append, hopening, hend]
  simp [printStart, printAttribute, xmlEscape]

/-- A word between tags. -/
theorem word {opening closing name : String} {attributes : List (String × String)} (hs : Word s)
    (hopening : opening.toList = indent depth ++ printStart escapeChar name attributes ++ ['>'])
    (hclosing : closing.toList = printEnd name ++ ['\n']) :
    Prints depth (opening ++ s ++ closing) [.mk name attributes s []] := by
  unfold Prints
  rw [String.toList_append, String.toList_append, hopening, hclosing]
  simp [printAll, print, hs.ne_empty, hs.escape]

end Prints

theorem prints_renderInterface (network mac : String) :
    Prints 2 (renderInterface network mac) [interfaceElement network mac] := by
  have hmac : Prints 3 ("      <mac address='" ++ xmlEscape mac ++ "'/>\n")
      [.mk "mac" [("address", mac)] "" []] := .value mac (by decide +kernel)
  have hsource : Prints 3 ("      <source network='" ++ xmlEscape network ++ "'/>\n")
      [.mk "source" [("network", network)] "" []] := .value network (by decide +kernel)
  have hmodel : Prints 3 "      <model type='virtio'/>\n"
      [.mk "model" [("type", "virtio")] "" []] := by
    decide +kernel
  have hopening : "    <interface type='network'>\n".toList = indent 2 ++
      printStart escapeChar "interface" [("type", "network")] ++ ['>', '\n'] := by decide +kernel
  have hclosing : "    </interface>\n".toList = indent 2 ++ printEnd "interface" ++ ['\n'] := by
    decide +kernel
  have helement := Prints.element hopening hclosing (by simp)
    ((hmac.append hsource).append hmodel)
  have hlast : "      <model type='virtio'/>\n    </interface>\n" =
      "      <model type='virtio'/>\n" ++ "    </interface>\n" := by decide +kernel
  unfold renderInterface
  rw [hlast]
  simp only [String.append_assoc] at helement ⊢
  exact helement

theorem prints_renderDisk (req : VmProvisionRequest) : Prints 2 (renderDisk req)
    [diskElement req.disk.overlayPath req.disk.backingImage req.disk.readOnlyRoot] := by
  have hdriver : Prints 3 "      <driver name='qemu' type='qcow2'/>\n"
      [.mk "driver" [("name", "qemu"), ("type", "qcow2")] "" []] := by decide +kernel
  have hformat : Prints 5 "          <format type='qcow2'/>\n"
      [.mk "format" [("type", "qcow2")] "" []] := by decide +kernel
  have hbacking : Prints 5
      ("          <source file='" ++ xmlEscape req.disk.backingImage ++ "'/>\n")
      [.mk "source" [("file", req.disk.backingImage)] "" []] := .value _ (by decide +kernel)
  have hstoring : "        <backingStore type='file'>\n".toList = indent 4 ++
      printStart escapeChar "backingStore" [("type", "file")] ++ ['>', '\n'] := by decide +kernel
  have hstored : "        </backingStore>\n".toList =
      indent 4 ++ printEnd "backingStore" ++ ['\n'] := by decide +kernel
  have hstore := Prints.element hstoring hstored (by simp) (hformat.append hbacking)
  have hopening : "      <source file='".toList =
      indent 3 ++ '<' :: "source".toList ++ ' ' :: "file".toList ++ ['=', '\''] := by
    decide +kernel
  have hclosing : "      </source>\n".toList = indent 3 ++ printEnd "source" ++ ['\n'] := by
    decide +kernel
  have hsource := Prints.value_open req.disk.overlayPath hopening hclosing (by simp) hstore
  have htarget : Prints 3 "      <target dev='vda' bus='virtio'/>\n"
      [.mk "target" [("dev", "vda"), ("bus", "virtio")] "" []] := by decide +kernel
  have hreadonly : Prints 3 (if req.disk.readOnlyRoot then "      <readonly/>\n" else "")
      (if req.disk.readOnlyRoot then [.mk "readonly" [] "" []] else []) := by
    split_ifs <;> decide +kernel
  have hfirst : "    <disk type='file' device='disk'>\n".toList = indent 2 ++
      printStart escapeChar "disk" [("type", "file"), ("device", "disk")] ++ ['>', '\n'] := by
    decide +kernel
  have hlast : "    </disk>\n".toList = indent 2 ++ printEnd "disk" ++ ['\n'] := by decide +kernel
  have hdisk := Prints.element hfirst hlast (by simp)
    (((hdriver.append hsource).append htarget).append hreadonly)
  unfold renderDisk
  simp only [String.append_assoc] at hdisk ⊢
  exact hdisk

theorem prints_renderVideo (gpu : GpuBackend) : Prints 2 (renderVideo gpu) [videoElement gpu] := by
  unfold Prints
  cases gpu with
  | virtioGpu =>
    simp only [renderVideo, String.toList_append]
    decide +kernel
  | software =>
    simp only [renderVideo, String.toList_append]
    decide +kernel

theorem prints_renderInterfaces (req : VmProvisionRequest) (mac upstreamMac : String) :
    Prints 2 (renderInterfaces req mac upstreamMac)
      ((nics req mac upstreamMac).map fun n => interfaceElement n.1 n.2) := by
  unfold renderInterfaces nics
  cases req.role with
  | browser => exact prints_renderInterface _ _
  | gateway => exact (prints_renderInterface _ _).append (prints_renderInterface _ _)

/-- The lines between the vCPU count and the devices. -/
def platformText : String :=
  "  <os>\n" ++ "    <type arch='x86_64' machine='q35'>hvm</type>\n" ++
    "    <boot dev='hd'/>\n" ++ "  </os>\n" ++
    "  <features>\n" ++ "    <acpi/>\n" ++ "    <apic/>\n" ++ "  </features>\n" ++
    "  <cpu mode='host-passthrough' check='none'/>\n" ++
    "  <clock offset='utc'/>\n" ++
    "  <on_poweroff>destroy</on_poweroff>\n" ++
    "  <on_reboot>restart</on_reboot>\n" ++
    "  <on_crash>destroy</on_crash>\n"

/-- The lines behind the video. -/
def consoleText : String :=
  "    <graphics type='vnc' port='-1' autoport='yes' listen='127.0.0.1'/>\n" ++
    "    <console type='pty'>\n" ++ "      <target type='serial' port='0'/>\n" ++
    "    </console>\n" ++
    "    <memballoon model='virtio'/>\n" ++
    "    <rng model='virtio'>\n" ++
    "      <backend model='random'>/dev/urandom</backend>\n" ++ "    </rng>\n"

theorem prints_platformText : Prints 1 platformText platformElements := by
  unfold Prints platformText
  simp only [String.toList_append]
  decide +kernel

theorem prints_consoleText : Prints 2 consoleText consoleElements := by
  unfold Prints consoleText
  simp only [String.toList_append]
  decide +kernel

theorem prints_devices (req : VmProvisionRequest) (mac upstreamMac : String) :
    Prints 1 ("  <devices>\n" ++ (renderDisk req ++ renderInterfaces req mac upstreamMac ++
        renderVideo req.gpu ++ consoleText) ++ "  </devices>\n")
      [.mk "devices" [] "" (deviceElements req mac upstreamMac)] := by
  have hinner := (((prints_renderDisk req).append
    (prints_renderInterfaces req mac upstreamMac)).append (prints_renderVideo req.gpu)).append
    prints_consoleText
  have helements : deviceElements req mac upstreamMac =
      [diskElement req.disk.overlayPath req.disk.backingImage req.disk.readOnlyRoot] ++
        ((nics req mac upstreamMac).map fun n => interfaceElement n.1 n.2) ++
        [videoElement req.gpu] ++ consoleElements := by
    simp [deviceElements]
  rw [helements]
  exact .element (by decide +kernel) (by decide +kernel) (by simp) hinner

/-- The domain XML is its domain, printed. -/
theorem renderDomainXmlWith_eq (req : VmProvisionRequest) (mac upstreamMac : String) :
    Prints 0 (renderDomainXmlWith req mac upstreamMac) [domainElement req mac upstreamMac] := by
  have hname : Prints 1 ("  <name>" ++ domainName req ++ "</name>\n")
      [.mk "name" [] (domainName req) []] :=
    .word (word_domainName req) (by decide +kernel) (by decide +kernel)
  have huuid : Prints 1 ("  <uuid>" ++ req.instanceId.uuid.display ++ "</uuid>\n")
      [.mk "uuid" [] req.instanceId.uuid.display []] :=
    .word (word_display req.instanceId.uuid) (by decide +kernel) (by decide +kernel)
  have hmemory : Prints 1 ("  <memory unit='MiB'>" ++ toString req.resources.memoryMib.toNat ++
      "</memory>\n") [.mk "memory" [("unit", "MiB")] (toString req.resources.memoryMib.toNat) []] :=
    .word (word_toString req.resources.memoryMib.toNat) (by decide +kernel) (by decide +kernel)
  have hcurrent : Prints 1 ("  <currentMemory unit='MiB'>" ++
      toString req.resources.memoryMib.toNat ++ "</currentMemory>\n")
      [.mk "currentMemory" [("unit", "MiB")] (toString req.resources.memoryMib.toNat) []] :=
    .word (word_toString req.resources.memoryMib.toNat) (by decide +kernel) (by decide +kernel)
  have hvcpu : Prints 1 ("  <vcpu placement='static'>" ++ toString req.resources.vcpus.toNat ++
      "</vcpu>\n") [.mk "vcpu" [("placement", "static")] (toString req.resources.vcpus.toNat) []] :=
    .word (word_toString req.resources.vcpus.toNat) (by decide +kernel) (by decide +kernel)
  have hopening : "<domain type='kvm'>\n".toList = indent 0 ++
      printStart escapeChar "domain" [("type", "kvm")] ++ ['>', '\n'] := by decide +kernel
  have hclosing : "</domain>\n".toList = indent 0 ++ printEnd "domain" ++ ['\n'] := by
    decide +kernel
  have hdomain := Prints.element hopening hclosing (by simp)
    ((((((hname.append huuid).append hmemory).append hcurrent).append hvcpu).append
      prints_platformText).append (prints_devices req mac upstreamMac))
  unfold renderDomainXmlWith
  unfold platformText consoleText at hdomain
  simp only [String.append_assoc] at hdomain ⊢
  exact hdomain

/-! ### Reading it back -/

theorem printables_append {es es' : List Element} :
    Printables (es ++ es') ↔ Printables es ∧ Printables es' := by
  induction es with
  | nil => simp [Printables]
  | cons e es ih => simp [Printables, ih, and_assoc]

theorem Word.printable {s name : String} {attributes : List (String × String)} (h : Word s)
    (hname : isName name = true) (hkeys : areKeys (attributes.map Prod.fst) = true) :
    (Element.mk name attributes s []).Printable :=
  ⟨hname, hkeys, .inr ⟨rfl, h.not_spaces⟩, trivial⟩

/-- An element with children or nothing inside, by its name and the names of its attributes. -/
theorem printable_mk {name : String} {attributes : List (String × String)} {es : List Element}
    (keys : List String) (hattributes : attributes.map Prod.fst = keys)
    (hname : (isName name && areKeys keys) = true) (h : Printables es) :
    (Element.mk name attributes "" es).Printable := by
  obtain ⟨hname, hkeys⟩ := Bool.and_eq_true_iff.mp hname
  exact ⟨hname, hattributes ▸ hkeys, .inl rfl, h⟩

theorem printable_interfaceElement (network mac : String) :
    (interfaceElement network mac).Printable := by
  refine printable_mk ["type"] rfl (by decide) ⟨?_, ?_, ?_, trivial⟩
  · exact printable_mk ["address"] rfl (by decide) trivial
  · exact printable_mk ["network"] rfl (by decide) trivial
  · exact printable_mk ["type"] rfl (by decide) trivial

theorem printable_diskElement (overlay backing : String) (readOnly : Bool) :
    (diskElement overlay backing readOnly).Printable := by
  have hstore : (Element.mk "backingStore" [("type", "file")] ""
      [.mk "format" [("type", "qcow2")] "" [], .mk "source" [("file", backing)] "" []]).Printable :=
    printable_mk ["type"] rfl (by decide) ⟨printable_mk ["type"] rfl (by decide) trivial,
      printable_mk ["file"] rfl (by decide) trivial, trivial⟩
  refine printable_mk ["type", "device"] rfl (by decide) (printables_append.mpr
    ⟨⟨?_, ?_, ?_, trivial⟩, ?_⟩)
  · exact printable_mk ["name", "type"] rfl (by decide) trivial
  · exact printable_mk ["file"] rfl (by decide) ⟨hstore, trivial⟩
  · exact printable_mk ["dev", "bus"] rfl (by decide) trivial
  · cases readOnly with
    | false => exact trivial
    | true => exact ⟨printable_mk [] rfl (by decide) trivial, trivial⟩

theorem printable_videoElement (gpu : GpuBackend) : (videoElement gpu).Printable := by
  cases gpu with
  | virtioGpu =>
    exact printable_mk [] rfl (by decide) ⟨printable_mk ["type", "heads"] rfl (by decide)
      ⟨printable_mk ["accel3d"] rfl (by decide) trivial, trivial⟩, trivial⟩
  | software =>
    exact printable_mk [] rfl (by decide)
      ⟨printable_mk ["type", "vram", "heads"] rfl (by decide) trivial, trivial⟩

theorem printables_map_interfaceElement (ns : List (String × String)) :
    Printables (ns.map fun n => interfaceElement n.1 n.2) := by
  induction ns with
  | nil => exact trivial
  | cons n ns ih => exact ⟨printable_interfaceElement _ _, ih⟩

/-- An element with a text and nothing else inside. -/
theorem printable_text {name text : String} {attributes : List (String × String)}
    (h : (isName name && areKeys (attributes.map Prod.fst) && !text.toList.all isSpace) = true) :
    (Element.mk name attributes text []).Printable := by
  simp only [Bool.and_eq_true, Bool.not_eq_true'] at h
  exact ⟨h.1.1, h.1.2, .inr ⟨rfl, h.2⟩, trivial⟩

theorem printables_platformElements : Printables platformElements := by
  refine ⟨?_, ?_, ?_, ?_, ?_, ?_, ?_, trivial⟩
  · exact printable_mk [] rfl (by decide) ⟨printable_text (by decide),
      printable_mk ["dev"] rfl (by decide) trivial, trivial⟩
  · exact printable_mk [] rfl (by decide) ⟨printable_mk [] rfl (by decide) trivial,
      printable_mk [] rfl (by decide) trivial, trivial⟩
  · exact printable_mk ["mode", "check"] rfl (by decide) trivial
  · exact printable_mk ["offset"] rfl (by decide) trivial
  · exact printable_text (by decide)
  · exact printable_text (by decide)
  · exact printable_text (by decide)

theorem printables_consoleElements : Printables consoleElements := by
  refine ⟨?_, ?_, ?_, ?_, trivial⟩
  · exact printable_mk ["type", "port", "autoport", "listen"] rfl (by decide) trivial
  · exact printable_mk ["type"] rfl (by decide)
      ⟨printable_mk ["type", "port"] rfl (by decide) trivial, trivial⟩
  · exact printable_mk ["model"] rfl (by decide) trivial
  · exact printable_mk ["model"] rfl (by decide) ⟨printable_text (by decide), trivial⟩

section Read

variable (req : VmProvisionRequest) (mac upstreamMac : String)

theorem printable_domainElement : (domainElement req mac upstreamMac).Printable := by
  refine printable_mk ["type"] rfl (by decide) (printables_append.mpr ⟨printables_append.mpr
    ⟨⟨?_, ?_, ?_, ?_, ?_, trivial⟩, printables_platformElements⟩, ?_, trivial⟩)
  · exact (word_domainName req).printable (by decide) (by decide)
  · exact (word_display _).printable (by decide) (by decide)
  · exact (word_toString _).printable (by decide) (by decide)
  · exact (word_toString _).printable (by decide) (by decide)
  · exact (word_toString _).printable (by decide) (by decide)
  · exact printable_mk [] rfl (by decide) ⟨printable_diskElement _ _ _, printables_append.mpr
      ⟨printables_map_interfaceElement _, printable_videoElement _, printables_consoleElements⟩⟩

/-- The domain XML is read back as the domain of the request. -/
theorem read_renderDomainXmlWith : Xml.read (renderDomainXmlWith req mac upstreamMac).toList =
    some (domainElement req mac upstreamMac) := by
  have hprints : (renderDomainXmlWith req mac upstreamMac).toList =
      print escapeChar 0 (domainElement req mac upstreamMac) ++ ['\n'] := by
    rw [renderDomainXmlWith_eq req mac upstreamMac]
    simp [printAll, indent]
  rw [hprints, read_print escapes_escapeChar (printable_domainElement req mac upstreamMac)]

/-- The names of the elements that every domain has around its disk, its NICs and its video. -/
def outerNames : List String :=
  ["domain", "name", "uuid", "memory", "currentMemory", "vcpu", "os", "type", "boot", "features",
    "acpi", "apic", "cpu", "clock", "on_poweroff", "on_reboot", "on_crash", "devices", "graphics",
    "console", "target", "memballoon", "rng", "backend"]

/-- Elements of other names are those of its disk, its NICs and its video. -/
theorem named_domainElement {n : String} (h : n ∉ outerNames) :
    (domainElement req mac upstreamMac).named n =
      (diskElement req.disk.overlayPath req.disk.backingImage req.disk.readOnlyRoot).named n ++
        namedIn n ((nics req mac upstreamMac).map fun n => interfaceElement n.1 n.2) ++
        (videoElement req.gpu).named n := by
  have hne {name : String} (hname : name ∈ outerNames) : n ≠ name := fun he => h (he ▸ hname)
  have hsome {es : List Element} (hes : (subtrees es).map Element.name ⊆ outerNames) :
      namedIn n es = [] := namedIn_eq_nil fun hn => h (hes hn)
  have hplatform : namedIn n platformElements = [] := hsome (by decide +kernel)
  have hconsole : namedIn n consoleElements = [] := hsome (by decide +kernel)
  unfold domainElement
  rw [named_mk (hne (by decide)), namedIn_append, namedIn_append, hplatform, List.append_nil]
  simp only [namedIn_cons]
  rw [named_mk (hne (by decide)), named_mk (hne (by decide)), named_mk (hne (by decide)),
    named_mk (hne (by decide)), named_mk (hne (by decide)), named_mk (hne (by decide))]
  unfold deviceElements
  rw [namedIn_append, namedIn_cons, namedIn_cons, hconsole]
  simp [namedIn, subtrees]

/-- The elements of a name that neither the disk nor the video has are those of the NICs. -/
theorem named_nics {n : String} {g : String × String → List Element} (h : n ∉ outerNames)
    (hdisk : ∀ overlay backing readOnly, (diskElement overlay backing readOnly).named n = [])
    (hvideo : ∀ gpu, (videoElement gpu).named n = [])
    (hnic : ∀ nic : String × String, (interfaceElement nic.1 nic.2).named n = g nic) :
    (domainElement req mac upstreamMac).named n = (nics req mac upstreamMac).flatMap g := by
  rw [named_domainElement req mac upstreamMac h, hdisk, hvideo, namedIn_map hnic,
    List.nil_append, List.append_nil]

/-- The interfaces of a domain are the NICs of its VM. -/
theorem named_interface : (domainElement req mac upstreamMac).named "interface" =
    (nics req mac upstreamMac).map fun n => interfaceElement n.1 n.2 := by
  rw [named_nics req mac upstreamMac (by decide) (fun _ _ readOnly => by cases readOnly <;> rfl)
    (fun gpu => by cases gpu <;> rfl) fun _ => rfl]
  exact List.flatMap_pure_eq_map _ _

theorem named_mac : (domainElement req mac upstreamMac).named "mac" =
    (nics req mac upstreamMac).flatMap fun n => [.mk "mac" [("address", n.2)] "" []] :=
  named_nics req mac upstreamMac (by decide) (fun _ _ readOnly => by cases readOnly <;> rfl)
    (fun gpu => by cases gpu <;> rfl) fun _ => rfl

theorem named_source : (domainElement req mac upstreamMac).named "source" =
    (diskElement req.disk.overlayPath req.disk.backingImage req.disk.readOnlyRoot).named "source" ++
      (nics req mac upstreamMac).flatMap fun n => [.mk "source" [("network", n.1)] "" []] := by
  have hvideo (gpu : GpuBackend) : (videoElement gpu).named "source" = [] := by cases gpu <;> rfl
  have hnic (n : String × String) : (interfaceElement n.1 n.2).named "source" =
      [.mk "source" [("network", n.1)] "" []] := rfl
  rw [named_domainElement req mac upstreamMac (by decide), hvideo, namedIn_map hnic,
    List.append_nil]

/-- The strings of the request and the MACs are the values of their attributes. -/
theorem values_source_file : (domainElement req mac upstreamMac).values "source" "file" =
    [req.disk.overlayPath, req.disk.backingImage] := by
  have hdisk : ((diskElement req.disk.overlayPath req.disk.backingImage
      req.disk.readOnlyRoot).named "source").filterMap (fun e => e.attributes.lookup "file") =
        [req.disk.overlayPath, req.disk.backingImage] := by
    cases req.disk.readOnlyRoot <;> rfl
  have hnics (ns : List (String × String)) :
      (ns.flatMap fun n => [Element.mk "source" [("network", n.1)] "" []]).filterMap
        (fun e => e.attributes.lookup "file") = [] := by
    induction ns with
    | nil => rfl
    | cons n ns ih => exact ih
  unfold values
  rw [named_source, List.filterMap_append, hdisk, hnics, List.append_nil]

theorem values_source_network : (domainElement req mac upstreamMac).values "source" "network" =
    (nics req mac upstreamMac).map Prod.fst := by
  have hdisk : ((diskElement req.disk.overlayPath req.disk.backingImage
      req.disk.readOnlyRoot).named "source").filterMap
        (fun e => e.attributes.lookup "network") = [] := by
    cases req.disk.readOnlyRoot <;> rfl
  have hnics (ns : List (String × String)) :
      (ns.flatMap fun n => [Element.mk "source" [("network", n.1)] "" []]).filterMap
        (fun e => e.attributes.lookup "network") = ns.map Prod.fst := by
    induction ns with
    | nil => rfl
    | cons n ns ih => exact congrArg (n.1 :: ·) ih
  unfold values
  rw [named_source, List.filterMap_append, hdisk, hnics, List.nil_append]

theorem values_mac_address : (domainElement req mac upstreamMac).values "mac" "address" =
    (nics req mac upstreamMac).map Prod.snd := by
  have hnics (ns : List (String × String)) :
      (ns.flatMap fun n => [Element.mk "mac" [("address", n.2)] "" []]).filterMap
        (fun e => e.attributes.lookup "address") = ns.map Prod.snd := by
    induction ns with
    | nil => rfl
    | cons n ns ih => exact congrArg (n.2 :: ·) ih
  unfold values
  rw [named_mac, hnics]

/-- The elements of a domain by its role, its video and whether its disk is read-only. -/
def domainSkeleton (role : VmRole) (gpu : GpuBackend) (readOnly : Bool) : Element :=
  (domainElement
    { instanceId := ⟨0⟩
      role := role
      resources := ⟨0, 0⟩
      disk := ⟨"", "", true, readOnly⟩
      gpu := gpu
      isolation := .hardened
      isolatedNetwork := "" } "" "").skeleton

/-- The names of the elements of a disk, a NIC or a video. -/
def innerNames : List String :=
  ["disk", "driver", "source", "backingStore", "format", "readonly", "interface", "mac", "model",
    "video", "acceleration", "target"]

/-- No element of a name that a domain does not have. -/
theorem named_eq_nil {n : String} (h : n ∉ outerNames) (hinner : n ∉ innerNames) :
    (domainElement req mac upstreamMac).named n = [] := by
  have hnone {e : Element} (he : e.subtree.map Element.name ⊆ innerNames) : e.named n = [] := by
    apply List.filter_eq_nil_iff.mpr
    intro x hx hname
    exact hinner (he (of_decide_eq_true hname ▸ List.mem_map_of_mem hx))
  rw [named_nics req mac upstreamMac (g := fun _ => []) h]
  · exact List.flatMap_eq_nil_iff.mpr fun _ _ => rfl
  · intro overlay backing readOnly
    apply hnone
    cases readOnly <;> exact of_decide_eq_true rfl
  · intro gpu
    apply hnone
    cases gpu <;> exact of_decide_eq_true rfl
  · exact fun nic => hnone (of_decide_eq_true rfl)

theorem skeleton_domainElement : (domainElement req mac upstreamMac).skeleton =
    domainSkeleton req.role req.gpu req.disk.readOnlyRoot := by
  obtain ⟨id, role, resources, ⟨backing, overlay, destroyOnClose, readOnly⟩, gpu, isolation,
    network⟩
    := req
  cases role <;> cases gpu <;> cases readOnly <;> rfl

end Read

/-- The elements are those of the VM's role, video and disk: the interfaces are its NICs, there is
no device that reaches the host, and each string is the value of its attribute. -/
structure Describes (req : VmProvisionRequest) (mac upstreamMac : String) (e : Element) : Prop where
  skeleton : e.skeleton = domainSkeleton req.role req.gpu req.disk.readOnlyRoot
  interfaces : e.named "interface" =
    match req.role with
    | .browser => [interfaceElement req.isolatedNetwork mac]
    | .gateway => [interfaceElement upstreamNetwork upstreamMac,
        interfaceElement req.isolatedNetwork mac]
  devices : ∀ name ∈ ["hostdev", "redirdev", "filesystem", "sound", "channel"], e.named name = []
  files : e.values "source" "file" = [req.disk.overlayPath, req.disk.backingImage]
  networks : e.values "source" "network" = (nics req mac upstreamMac).map Prod.fst
  macs : e.values "mac" "address" = (nics req mac upstreamMac).map Prod.snd

/-- Whatever the strings of a request and the MACs are, the domain XML is read back as the elements
of its VM. -/
theorem renderDomainXmlWith_describes (req : VmProvisionRequest) (mac upstreamMac : String) :
    Xml.read (renderDomainXmlWith req mac upstreamMac).toList =
      some (domainElement req mac upstreamMac) ∧
    Describes req mac upstreamMac (domainElement req mac upstreamMac) := by
  refine ⟨read_renderDomainXmlWith req mac upstreamMac, skeleton_domainElement req mac upstreamMac,
    ?_, ?_, values_source_file req mac upstreamMac, values_source_network req mac upstreamMac,
    values_mac_address req mac upstreamMac⟩
  · rw [named_interface]
    unfold nics
    cases req.role <;> rfl
  · have absent (n : String) (h : n ∉ outerNames) (hinner : n ∉ innerNames) :=
      named_eq_nil req mac upstreamMac h hinner
    simp only [List.forall_mem_cons, List.not_mem_nil, false_implies, implies_true, and_true]
    exact ⟨absent "hostdev" (by decide) (by decide), absent "redirdev" (by decide) (by decide),
      absent "filesystem" (by decide) (by decide), absent "sound" (by decide) (by decide),
      absent "channel" (by decide) (by decide)⟩

end Aegis.Vm
