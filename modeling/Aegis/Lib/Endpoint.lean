import Aegis.Lib.Text
import Mathlib.Algebra.Group.Nat.Defs
import Mathlib.Data.List.Infix

/-! Proxy endpoints as text: the scheme in front of the first colon, the authority behind the last
`://`, and the one proxy server a browser takes such a text for. -/
namespace Endpoint
open Text

inductive Protocol where
  | http
  | https
  | quic
  | socks4
  | socks5
  deriving DecidableEq

structure Server where
  protocol : Protocol
  host : String
  port : BitVec 16
  deriving DecidableEq

/-- The schemes a browser accepts, in small letters. -/
def schemeProtocol (s : List Char) : Option Protocol :=
  if s = "http".toList then some .http
  else if s = "https".toList then some .https
  else if s = "quic".toList then some .quic
  else if s = "socks4".toList then some .socks4
  else if s = "socks".toList ∨ s = "socks5".toList then some .socks5
  else none

def separator : List Char := "://".toList

/-- The scheme, if the first colon is followed by two slashes, and what follows it. -/
def splitScheme (cs : List Char) : Option (List Char) × List Char :=
  match stripPrefix separator (cs.dropWhile (· ≠ ':')) with
  | some rest =>
    let scheme := (cs.takeWhile (· ≠ ':')).dropWhile fun c => c = ' ' || c = '\t'
    (some (scheme.map Char.toLower), rest)
  | none => (none, cs)

/-- What stands behind the last `://`, or all of it. -/
def authority (cs : List Char) : List Char := (afterLast separator cs).getD cs

/-- Commas, semicolons and equal signs make a value a list of servers or of servers by scheme. -/
def isList (cs : List Char) : Bool := cs.any fun c => c = ',' || c = ';' || c = '='

/-- The server a browser takes a value for that is not a list; without a scheme it is one that
speaks HTTP. -/
def readServer (value : String) : Option Server := do
  if isList value.toList then none
  let (scheme, rest) := splitScheme value.toList
  let protocol ← match scheme with
    | none => some .http
    | some s => schemeProtocol s
  let (host, digits) ← rsplitOnce ':' rest
  if host = [] ∨ digits.all Char.isDigit = false then none
  let port ← parseUnsigned (2 ^ 16) digits
  return ⟨protocol, String.ofList host, BitVec.ofNat 16 port⟩

section Split

variable {cs rest : List Char}

theorem splitScheme_append {pre : List Char} (h : ':' ∉ pre) (rest : List Char) :
    splitScheme (pre ++ separator ++ rest) =
      (some ((pre.dropWhile fun c => c = ' ' || c = '\t').map Char.toLower), rest) := by
  have hne : ∀ c ∈ pre, decide (c ≠ ':') = true := fun c hc =>
    decide_eq_true fun he => h (he ▸ hc)
  have hstop : separator ++ rest = ':' :: '/' :: '/' :: rest := rfl
  have htake : (pre ++ separator ++ rest).takeWhile (· ≠ ':') = pre := by
    rw [List.append_assoc, hstop, List.takeWhile_append_of_pos hne]
    simp
  have hdrop : (pre ++ separator ++ rest).dropWhile (· ≠ ':') = separator ++ rest := by
    rw [List.append_assoc, hstop, List.dropWhile_append_of_pos hne]
    simp
  have hstrip : stripPrefix separator (separator ++ rest) = some rest := by
    simp [stripPrefix]
  simp only [splitScheme, htake, hdrop, hstrip]

theorem exists_of_splitScheme {s : List Char} (h : splitScheme cs = (some s, rest)) :
    ∃ pre, cs = pre ++ separator ++ rest := by
  unfold splitScheme at h
  split at h
  · rename_i rest' hstrip
    obtain ⟨-, rfl⟩ := Prod.mk.inj h
    unfold stripPrefix at hstrip
    split_ifs at hstrip with hpre
    obtain ⟨tail, htail⟩ := hpre
    obtain rfl : tail = rest' := by
      rw [← htail] at hstrip
      simpa using hstrip
    refine ⟨cs.takeWhile (· ≠ ':'), ?_⟩
    rw [List.append_assoc, htail, List.takeWhile_append_dropWhile]
  · cases h

theorem rest_of_splitScheme_none (h : (splitScheme cs).1 = none) : (splitScheme cs).2 = cs := by
  unfold splitScheme at h ⊢
  split at h
  · cases h
  · rfl

theorem exists_of_afterLast {sep a : List Char} (h : afterLast sep cs = some a) :
    ∃ x, cs = x ++ sep ++ a := by
  induction cs with
  | nil => cases h
  | cons c cs ih =>
    rw [afterLast] at h
    cases hlast : afterLast sep cs with
    | some b =>
      rw [hlast, Option.some_or] at h
      obtain ⟨x, hx⟩ := ih (hlast.trans h)
      exact ⟨c :: x, by rw [hx]; rfl⟩
    | none =>
      rw [hlast, Option.none_or] at h
      unfold stripPrefix at h
      split_ifs at h with hpre
      obtain ⟨tail, htail⟩ := hpre
      rw [← htail] at h
      obtain rfl : tail = a := by simpa using h
      exact ⟨[], by rw [← htail]; rfl⟩

theorem afterLast_eq_none {sep : List Char} (hsep : sep ≠ []) :
    afterLast sep cs = none ↔ ¬ sep <:+: cs := by
  induction cs with
  | nil => simp [afterLast, hsep]
  | cons c cs ih =>
    have hstrip : stripPrefix sep (c :: cs) = none ↔ ¬ sep <+: c :: cs := by
      unfold stripPrefix
      split_ifs with hpre <;> simp [hpre]
    rw [afterLast, Option.or_eq_none_iff, ih, hstrip, List.infix_cons_iff]
    tauto

/-- The last separator of a text that has one is the last one behind it, or itself. -/
theorem afterLast_append (pre rest : List Char) :
    afterLast separator (pre ++ separator ++ rest) =
      (afterLast separator rest).or (some rest) := by
  induction pre with
  | nil =>
    show (((afterLast separator rest).or (stripPrefix separator ('/' :: rest))).or
      (stripPrefix separator ('/' :: '/' :: rest))).or
        (stripPrefix separator (':' :: '/' :: '/' :: rest)) = _
    have hslash (cs : List Char) : stripPrefix separator ('/' :: cs) = none := by
      simp [stripPrefix, separator]
    have hself : stripPrefix separator (':' :: '/' :: '/' :: rest) = some rest := by
      simp [stripPrefix, separator]
    rw [hslash, hslash, hself, Option.or_none, Option.or_none]
  | cons c pre ih =>
    rw [List.cons_append, List.cons_append, afterLast, ih]
    cases afterLast separator rest <;> rfl

theorem authority_append (pre rest : List Char) :
    authority (pre ++ separator ++ rest) = authority rest := by
  rw [authority, authority, afterLast_append]
  cases afterLast separator rest <;> rfl

theorem authority_splitScheme (cs : List Char) :
    authority (splitScheme cs).2 = authority cs := by
  cases hs : (splitScheme cs).1 with
  | none => rw [rest_of_splitScheme_none hs]
  | some s =>
    obtain ⟨pre, hpre⟩ := exists_of_splitScheme (Prod.ext hs rfl)
    have happend := authority_append pre (splitScheme cs).2
    rw [← hpre] at happend
    exact happend.symm

/-- The authority is a proper part of a text that contains a separator. -/
theorem authority_cases (cs : List Char) :
    (¬ separator <:+: cs ∧ authority cs = cs) ∨
      separator <:+: cs ∧ ∃ x, cs = x ++ separator ++ authority cs := by
  have hsep : separator ≠ [] := by decide
  cases hlast : afterLast separator cs with
  | none =>
    refine .inl ⟨(afterLast_eq_none hsep).mp hlast, ?_⟩
    rw [authority, hlast]
    rfl
  | some a =>
    obtain ⟨x, hx⟩ := exists_of_afterLast hlast
    refine .inr ⟨⟨x, a, hx.symm⟩, x, ?_⟩
    rw [authority, hlast]
    exact hx

end Split

/-- A separator in front of a port lies in what stands in front of the colon. -/
theorem separator_infix_append (host : List Char) {digits : List Char} (h : '/' ∉ digits) :
    separator <:+: host ++ ':' :: digits ↔ separator <:+: host := by
  constructor
  · rintro ⟨x, y, heq⟩
    rcases List.append_eq_append_iff.mp heq with ⟨k, hhost, -⟩ | ⟨k, hsep, htail⟩
    · exact ⟨x, k, hhost.symm⟩
    · -- a separator that reaches behind the host would put its slash among the digits
      cases k using List.reverseRecOn with
      | nil => exact ⟨x, [], by simpa using hsep⟩
      | append_singleton k c =>
        have hlast : c = '/' := by
          have hend := congrArg List.getLast? hsep
          simpa [separator] using hend.symm
        have hmem : '/' ∈ ':' :: digits := by
          rw [htail, ← hlast]
          simp
        exact absurd ((List.mem_cons.mp hmem).resolve_left (by decide)) h
  · rintro ⟨x, y, rfl⟩
    exact ⟨x, y ++ ':' :: digits, by simp⟩

/-- The protocol a scheme stands for where none means HTTP. -/
def spokenProtocol : Option (List Char) → Option Protocol
  | none => some .http
  | some s => schemeProtocol s

theorem readServer_eq {value : String} {host digits : List Char} {n : ℕ}
    (hrest : (splitScheme value.toList).2 = host ++ ':' :: digits) (hdigits : ':' ∉ digits)
    (hhost : host ≠ []) (hn : parseUnsigned (2 ^ 16) digits = some n) :
    readServer value =
      if isList value.toList = false ∧ digits.all Char.isDigit = true then
        (spokenProtocol (splitScheme value.toList).1).map fun p =>
          ⟨p, String.ofList host, BitVec.ofNat 16 n⟩
      else none := by
  have hsplit : rsplitOnce ':' (splitScheme value.toList).2 = some (host, digits) :=
    rsplitOnce_eq_some.mpr ⟨hrest, hdigits⟩
  unfold readServer
  cases hlist : isList value.toList with
  | true => simp
  | false =>
    generalize splitScheme value.toList = split at hsplit
    obtain ⟨scheme, rest⟩ := split
    simp only [hsplit, hn, hhost, false_or, Option.bind_eq_bind, Option.bind_some]
    cases hall : digits.all Char.isDigit with
    | false => cases scheme <;> simp
    | true =>
      cases scheme with
      | none => simp [spokenProtocol]
      | some scheme =>
        simp only [spokenProtocol, Option.map_eq_bind]
        rfl

/-- A text whose authority is a host and a port is taken for a server at that host and port exactly
when it is no list, its scheme is accepted, no further `://` follows, and the port has no sign. -/
theorem readServer_eq_some {value : String} {host digits : List Char} {n : ℕ} {p : Protocol}
    (hauthority : authority value.toList = host ++ ':' :: digits) (hdigits : ':' ∉ digits)
    (hhost : host ≠ []) (hn : parseUnsigned (2 ^ 16) digits = some n) :
    readServer value = some ⟨p, String.ofList host, BitVec.ofNat 16 n⟩ ↔
      isList value.toList = false ∧ spokenProtocol (splitScheme value.toList).1 = some p ∧
        ¬ separator <:+: (splitScheme value.toList).2 ∧ digits.all Char.isDigit = true := by
  have hrest := authority_splitScheme value.toList
  rw [hauthority] at hrest
  rcases authority_cases (splitScheme value.toList).2 with ⟨hplain, hself⟩ | ⟨hsep, x, hx⟩
  · rw [readServer_eq (hself.symm.trans hrest) hdigits hhost hn]
    split_ifs with hok
    · obtain ⟨hlist, hall⟩ := hok
      simp [hlist, hall, hplain]
    · refine ⟨nofun, ?_⟩
      rintro ⟨hlist, -, -, hall⟩
      exact hok ⟨hlist, hall⟩
  · -- the text is read up to its last colon, with the inner `://` as a part of the host
    rw [hrest, ← List.append_assoc] at hx
    rw [readServer_eq hx hdigits (by simp [hhost]) hn]
    constructor
    · intro h
      split_ifs at h
      obtain ⟨q, -, hq⟩ := Option.map_eq_some_iff.mp h
      have hhosts : x ++ separator ++ host = host := String.ofList_injective (Server.mk.inj hq).2.1
      have hlen := congrArg List.length hhosts
      have hthree : separator.length = 3 := rfl
      rw [List.length_append, List.length_append, hthree] at hlen
      omega
    · rintro ⟨-, -, hplain, -⟩
      exact absurd hsep hplain

end Endpoint
