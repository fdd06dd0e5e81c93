import Aegis.Ipc.Frame
import Aegis.Lib.Compare

/-! The loopback transport of a development host, and whom its shared token lets in. -/
namespace Aegis.Ipc
open Text Stream

/-- The message that is exchanged before any request. -/
structure Handshake where
  token : String
  deriving DecidableEq

def Handshake.record : Record Handshake :=
  .of (fun h => (h.token, ())) (fun (token, _) => ⟨token⟩) (fun _ => rfl) (.required "token" .nil)

instance : Wire Handshake := Handshake.record.wire (by decide)

structure HandshakeAck where
  ok : Bool
  deriving DecidableEq

def HandshakeAck.record : Record HandshakeAck :=
  .of (fun a => (a.ok, ())) (fun (ok, _) => ⟨ok⟩) (fun _ => rfl) (.required "ok" .nil)

instance : Wire HandshakeAck := HandshakeAck.record.wire (by decide)

def maxTokenLen : ℕ := 512

/-- `read_token`: the content of the token file without the white space around it. -/
def readToken (raw : Except String String) : Result String :=
  match raw with
  | .error e => .error (.system ("read token file: " ++ e))
  | .ok raw =>
    let token := trim raw
    if token = "" then .error (.config "token file is empty")
    else if (utf8 token.toList).length > maxTokenLen then .error (.config "token is too long")
    else .ok token

/-- Comparison of two tokens in constant time. The lengths are folded in, of which the cast keeps
the low byte. -/
def tokensMatch (a b : String) : Bool :=
  let a := utf8 a.toList
  let b := utf8 b.toList
  let diff := UInt8.ofNat (a.length ^^^ b.length)
  let n := max a.length b.length
  let diff := (List.range n).foldl (fun diff i =>
    let x := a.getD i 0
    let y := b.getD i 0
    diff ||| (x ^^^ y)) diff
  diff == 0

/-- A connection: what arrives on it, and what is written to it. -/
structure TcpStream where
  incoming : Source
  outgoing : Sink

structure TcpDevListener where
  token : String

section Listener

variable (text : Bytes → String) (l : TcpDevListener)

/-- The server side of the token handshake on a fresh stream; none while it waits for the frame. -/
def TcpDevListener.authorize (s : TcpStream) : Option (Result Bool × TcpStream) :=
  match readFrame (serdeJson Handshake text) s.incoming with
  | none => none
  | some (.error e, incoming) => some (.error e.toError, { s with incoming })
  | some (.ok hs, incoming) =>
    let ok := tokensMatch hs.token l.token
    match writeFrame (serdeJson HandshakeAck text) ⟨ok⟩ s.outgoing with
    | (.error e, outgoing) => some (.error e.toError, ⟨incoming, outgoing⟩)
    | (.ok (), outgoing) => some (.ok ok, ⟨incoming, outgoing⟩)

/-- A connection the socket hands over, and whether the address of its peer is a loopback one. -/
structure Arrival where
  stream : TcpStream
  isLoopback : Bool

/-- `accept`, over what the socket yields one after the other: the first connection that passes the
handshake, every other one is dropped; none while it waits. -/
def TcpDevListener.accept : List (Except String Arrival) → Option (Result TcpStream)
  | [] => none
  | .error e :: _ => some (.error (.system ("accept: " ++ e)))
  | .ok a :: rest =>
    if !a.isLoopback then accept rest
    else match l.authorize text a.stream with
      | none => none
      | some (.ok true, stream) => some (.ok stream)
      | some (.ok false, _) => accept rest
      | some (.error _, _) => accept rest

/-- The handshake that arrives first carries this token. -/
def TcpStream.Sends (s : TcpStream) (token : String) : Prop :=
  ∃ rest, readFrame (serdeJson Handshake text) s.incoming = some (.ok ⟨token⟩, rest)

end Listener

/-! ### What the comparison tells apart -/

/-- One token is the other with blocks of 256 zero bytes behind it. -/
def ZeroPadded (a b : String) : Prop :=
  ∃ k, 0 < k ∧ (a.toList = b.toList ++ List.replicate (256 * k) (Char.ofNat 0) ∨
    b.toList = a.toList ++ List.replicate (256 * k) (Char.ofNat 0))

section Compare

variable {a b : String}

theorem utf8_replicate_zero (k : ℕ) :
    utf8 (List.replicate k (Char.ofNat 0)) = List.replicate k 0 := by
  induction k with
  | zero => rfl
  | succ k ih =>
    show utf8 ([Char.ofNat 0] ++ List.replicate k (Char.ofNat 0)) = 0 :: List.replicate k 0
    rw [utf8_append, ih]
    rfl

theorem utf8_eq_append_zeros (cs ds : List Char) (k : ℕ) :
    utf8 cs = utf8 ds ++ List.replicate k 0 ↔ cs = ds ++ List.replicate k (Char.ofNat 0) := by
  rw [← utf8_replicate_zero, ← utf8_append]
  exact utf8_injective.eq_iff

/-- Two tokens match when they agree up to blocks of zero bytes behind one of them. -/
theorem tokensMatch_eq_true : tokensMatch a b = true ↔ a = b ∨ ZeroPadded a b := by
  unfold tokensMatch
  dsimp only
  rw [beq_iff_eq, foldl_or_eq_zero, low_byte_xor_eq_zero]
  simp only [List.mem_range, UInt8.xor_eq_zero_iff]
  rw [getD_eq_iff]
  constructor
  · rintro ⟨hlength, k, hk⟩
    have hblocks : ∃ j, k = 256 * j := by
      rcases hk with h | h
      · rw [h, List.length_append, List.length_replicate] at hlength
        exact ⟨k / 256, by omega⟩
      · rw [h, List.length_append, List.length_replicate] at hlength
        exact ⟨k / 256, by omega⟩
    obtain ⟨j, rfl⟩ := hblocks
    rw [utf8_eq_append_zeros, utf8_eq_append_zeros] at hk
    rcases Nat.eq_zero_or_pos j with rfl | hj
    · left
      apply String.toList_inj.mp
      rcases hk with h | h
      · simpa using h
      · simpa using h.symm
    · exact .inr ⟨j, hj, hk⟩
  · rintro (rfl | ⟨j, -, h⟩)
    · exact ⟨rfl, 0, .inl (by simp)⟩
    · rw [← utf8_eq_append_zeros, ← utf8_eq_append_zeros] at h
      refine ⟨?_, _, h⟩
      rcases h with h | h
      · rw [h, List.length_append, List.length_replicate]
        omega
      · rw [h, List.length_append, List.length_replicate]
        omega

theorem ZeroPadded.ne (h : ZeroPadded a b) : a ≠ b := by
  rintro rfl
  obtain ⟨k, hk, h | h⟩ := h
  · have hlength := congrArg List.length h
    rw [List.length_append, List.length_replicate] at hlength
    omega
  · have hlength := congrArg List.length h
    rw [List.length_append, List.length_replicate] at hlength
    omega

end Compare

/-! ### Who is let in -/

section Accept

variable {text : Bytes → String} {l : TcpDevListener} {s s' : TcpStream} {a : String}
  {arrivals : List (Except String Arrival)}

/-- The handshake succeeds for a token that matches. -/
theorem authorize_eq_true (h : l.authorize text s = some (.ok true, s')) :
    ∃ token, s.Sends text token ∧ tokensMatch token l.token = true := by
  unfold TcpDevListener.authorize at h
  split at h
  · cases h
  · cases h
  · rename_i hs incoming hread
    dsimp only at h
    split at h
    · cases h
    · have hok := (Prod.mk.inj (Option.some.inj h)).1
      exact ⟨hs.token, ⟨incoming, hread⟩, Except.ok.inj hok⟩

/-- A connection is returned once its handshake has succeeded, and from a loopback address. -/
theorem accept_eq_ok (h : l.accept text arrivals = some (.ok s')) :
    ∃ arrival, .ok arrival ∈ arrivals ∧ arrival.isLoopback = true ∧
      l.authorize text arrival.stream = some (.ok true, s') := by
  induction arrivals with
  | nil => cases h
  | cons arrival rest ih =>
    have hrest (h : l.accept text rest = some (.ok s')) : ∃ found, .ok found ∈ arrival :: rest ∧
        found.isLoopback = true ∧ l.authorize text found.stream = some (.ok true, s') := by
      obtain ⟨found, hmem, hfound⟩ := ih h
      exact ⟨found, List.mem_cons_of_mem _ hmem, hfound⟩
    cases arrival with
    | error e => cases h
    | ok arrival =>
      rw [TcpDevListener.accept] at h
      split_ifs at h with hlocal
      · exact hrest h
      · split at h
        · cases h
        · rename_i hauthorized
          cases h
          exact ⟨arrival, List.mem_cons_self, by simpa using hlocal, hauthorized⟩
        · exact hrest h
        · exact hrest h

/-- A peer that can be answered is told whether its token matches. -/
theorem authorize_of_sends {out : Bytes} (hs : s.Sends text a) (hout : s.outgoing = ⟨out, none⟩) :
    ∃ s', l.authorize text s = some (.ok (tokensMatch a l.token), s') := by
  obtain ⟨rest, hread⟩ := hs
  have hack : (toVec (HandshakeAck.mk (tokensMatch a l.token))).length ≤ maxFrameLen := by
    cases tokensMatch a l.token <;> decide +kernel
  have hwrite := writeFrame_frame (c := serdeJson HandshakeAck text)
    (frame_eq_ok.mpr ⟨_, rfl, hack, rfl⟩) out
  unfold TcpDevListener.authorize
  rw [hread, hout]
  dsimp only
  rw [hwrite]
  exact ⟨_, rfl⟩

theorem accept_of_authorize {arrival : Arrival}
    (h : l.authorize text arrival.stream = some (.ok true, s'))
    (hlocal : arrival.isLoopback = true) :
    l.accept text (.ok arrival :: arrivals) = some (.ok s') := by
  simp [TcpDevListener.accept, hlocal, h]

theorem TcpStream.Sends.unique {a b : String} (ha : s.Sends text a) (hb : s.Sends text b) :
    a = b := by
  obtain ⟨_, ha⟩ := ha
  obtain ⟨_, hb⟩ := hb
  rw [ha] at hb
  cases hb
  rfl

end Accept

/-- The comparison is equality for this token, and peers that send it are let in only if it is the
token of the daemon. -/
def TcpDevListener.Authenticates (l : TcpDevListener) (a : String) : Prop :=
  (tokensMatch a l.token = true ↔ a = l.token) ∧
    ∀ text arrivals s, (∀ arrival, .ok arrival ∈ arrivals → arrival.stream.Sends text a) →
      l.accept text arrivals = some (.ok s) → a = l.token

/-- A listener tells a token from its own unless one of them is the other with blocks of 256 zero
bytes behind it. -/
theorem authenticates_iff (l : TcpDevListener) (a : String) :
    l.Authenticates a ↔ ¬ ZeroPadded a l.token := by
  constructor
  · rintro ⟨hequal, -⟩ hpadded
    exact hpadded.ne (hequal.mp (tokensMatch_eq_true.mpr (.inr hpadded)))
  · intro hpadded
    have hequal : tokensMatch a l.token = true ↔ a = l.token := by
      rw [tokensMatch_eq_true]
      exact or_iff_left hpadded
    refine ⟨hequal, fun text arrivals s hsends haccept => ?_⟩
    obtain ⟨arrival, hmem, -, hauthorized⟩ := accept_eq_ok haccept
    obtain ⟨token, hsent, hmatch⟩ := authorize_eq_true hauthorized
    rw [(hsends arrival hmem).unique hsent] at hequal ⊢
    exact hequal.mp hmatch

/-- A token with 256 zero bytes behind it. -/
def paddedToken : String := String.ofList ("aegis".toList ++ List.replicate 256 (Char.ofNat 0))

/-- A peer whose handshake carries it. -/
def paddedPeer : Arrival where
  stream :=
    { incoming :=
        ⟨[toBeBytes (toVec (Handshake.mk paddedToken)).length,
          toVec (Handshake.mk paddedToken)], .live⟩
      outgoing := ⟨[], none⟩ }
  isLoopback := true

theorem sends_paddedPeer (text : Bytes → String) : paddedPeer.stream.Sends text paddedToken := by
  have hlength : (toVec (Handshake.mk paddedToken)).length ≤ maxFrameLen := by decide +kernel
  have hbytes : paddedPeer.stream.incoming.bytes =
      (toBeBytes (toVec (Handshake.mk paddedToken)).length ++ toVec (Handshake.mk paddedToken)) ++
        [] := by
    rw [List.append_nil]
    exact congrArg _ (List.append_nil _)
  obtain ⟨rest, hread, -⟩ := readFrame_frame (serdeJson_lossless Handshake text)
    (frame_eq_ok.mpr ⟨_, rfl, hlength, rfl⟩) hbytes
  exact ⟨rest, hread⟩

theorem outgoing_paddedPeer : paddedPeer.stream.outgoing = ⟨[], none⟩ := rfl

theorem isLoopback_paddedPeer : paddedPeer.isLoopback = true := rfl

/-- The daemon lets in a peer that sent another token than its own. -/
theorem paddedPeer_accepted : readToken (.ok "aegis\n") = .ok "aegis" ∧ paddedToken ≠ "aegis" ∧
    (∀ text, ∃ s, (TcpDevListener.mk "aegis").accept text [.ok paddedPeer] = some (.ok s)) ∧
    ¬ (TcpDevListener.mk "aegis").Authenticates paddedToken := by
  have hpadded : ZeroPadded paddedToken "aegis" :=
    ⟨1, one_pos, .inl String.toList_ofList⟩
  have hmatch : tokensMatch paddedToken "aegis" = true := tokensMatch_eq_true.mpr (.inr hpadded)
  have haccept (text : Bytes → String) :
      ∃ s, (TcpDevListener.mk "aegis").accept text [.ok paddedPeer] = some (.ok s) := by
    obtain ⟨s, hauthorized⟩ :=
      authorize_of_sends (l := ⟨"aegis"⟩) (sends_paddedPeer text) outgoing_paddedPeer
    rw [hmatch] at hauthorized
    exact ⟨s, accept_of_authorize hauthorized isLoopback_paddedPeer⟩
  refine ⟨by decide +kernel, hpadded.ne, haccept, fun h => hpadded.ne (h.1.mp hmatch)⟩

end Aegis.Ipc
