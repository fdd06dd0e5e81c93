import Aegis.Ipc.Frame
import Aegis.Lib.Transition

/-! A client and a server on one connection, a step for each piece of a frame that one of them
writes, with faults at any byte: they stay in lock-step. -/
namespace Aegis.Ipc
open Text Stream Transition

/-! ### One direction of the connection -/

section InFlight

variable {α : Type} {c : Codec α} {v : α} {pending : List α} {s : Source} {rest bs : Bytes}

/-- What a stream holds of the frames of `pending`: a part that a fault may have cut, and while the
stream lives all but the `rest` that its writer has yet to write. -/
structure InFlight (c : Codec α) (pending : List α) (s : Source) (rest : Bytes) : Prop where
  framed : ∀ v ∈ pending, ∃ bs, c.frame v = .ok bs
  arrived : s.bytes <+: c.frames pending
  live : s.ending = .live → s.bytes ++ rest = c.frames pending

namespace InFlight

theorem start : InFlight c [] ⟨[], .live⟩ [] :=
  ⟨fun _ hv => absurd hv List.not_mem_nil, List.prefix_rfl, fun _ => rfl⟩

/-- The writer starts on another frame. -/
theorem send (h : InFlight c pending s []) (hv : c.frame v = .ok bs) :
    InFlight c (pending ++ [v]) s bs := by
  have hframes : c.frames (pending ++ [v]) = c.frames pending ++ bs := by
    rw [frames_append, frames_cons hv, frames_nil, List.append_nil]
  refine ⟨fun w hw => ?_, ?_, fun hlive => ?_⟩
  · rcases List.mem_append.mp hw with hw | hw
    · exact h.framed w hw
    · rw [List.mem_singleton.mp hw]
      exact ⟨bs, hv⟩
  · rw [hframes]
    exact h.arrived.trans (List.prefix_append _ _)
  · rw [hframes, ← h.live hlive, List.append_nil]

/-- A piece of the frame is written. -/
theorem write (h : InFlight c pending s rest) (hlive : s.ending = .live) (n : ℕ) :
    InFlight c pending (s.arrive (rest.take n)) (rest.drop n) := by
  have hall := h.live hlive
  refine ⟨h.framed, ?_, fun _ => ?_⟩
  · rw [← hall, Source.arrive_bytes]
    exact (List.prefix_append_right_inj _).mpr (List.take_prefix n rest)
  · rw [Source.arrive_bytes, List.append_assoc, List.take_append_drop, hall]

/-- A stream that is over carries what has arrived. -/
theorem ended (h : InFlight c pending s rest) {t : Source} (hbytes : t.bytes <+: s.bytes)
    (hover : t.ending ≠ .live) (other : Bytes) : InFlight c pending t other :=
  ⟨h.framed, hbytes.trans h.arrived, fun hlive => absurd hlive hover⟩

theorem finish (h : InFlight c pending s rest) (other : Bytes) :
    InFlight c pending s.finish other :=
  h.ended (by rw [Source.finish_bytes]) s.finish_ending other

theorem breakAt (h : InFlight c pending s rest) (kept : ℕ) (text : String) (other : Bytes) :
    InFlight c pending (s.breakAt kept text) other :=
  h.ended (by rw [Source.breakAt_bytes]; exact List.take_prefix kept _)
    (s.breakAt_ending kept text) other

/-- The reader gets the first value that is under way, or it gets nothing and the stream is over. -/
theorem read (hc : c.Lossless) (h : InFlight c pending s rest) {r : Except FrameError α}
    {t : Source} (hr : readFrame c s = some (r, t)) :
    (∃ v vs, pending = v :: vs ∧ r = .ok v ∧ InFlight c vs t rest) ∨
      (∃ e, r = .error e) ∧ ∀ other, InFlight c pending t other := by
  have hover : ((s.ending = .live ∧ readFrame c s = none) ∨
      ∃ e rest, readFrame c s = some (.error e, rest) ∧ rest.bytes = [] ∧ rest.ending = s.ending ∧
        s.ending ≠ .live) → (∃ e, r = .error e) ∧ ∀ other, InFlight c pending t other := by
    rintro (⟨-, hnone⟩ | ⟨e, rest, hread, hbytes, hending, hne⟩)
    · rw [hnone] at hr
      cases hr
    · rw [hread] at hr
      cases hr
      exact ⟨⟨e, rfl⟩, h.ended (by rw [hbytes]; exact List.nil_prefix) (by rwa [hending])⟩
  cases pending with
  | nil =>
    have hnil : s.bytes = [] := List.prefix_nil.mp h.arrived
    exact .inr (hover (readFrame_header (by simp [hnil])))
  | cons v vs =>
    obtain ⟨bs, hbs⟩ := h.framed v List.mem_cons_self
    have harrived := h.arrived
    rw [frames_cons hbs] at harrived
    by_cases hwhole : bs <+: s.bytes
    · obtain ⟨tail, htail⟩ := hwhole
      obtain ⟨u, hread, hbytes, hending⟩ := readFrame_frame hc hbs htail.symm
      rw [hread] at hr
      cases hr
      refine .inl ⟨v, vs, rfl, rfl, fun w hw => h.framed w (List.mem_cons_of_mem v hw), ?_, ?_⟩
      · rw [← htail] at harrived
        rw [hbytes]
        exact (List.prefix_append_right_inj _).mp harrived
      · intro hlive
        have hall := h.live (hending ▸ hlive)
        rw [frames_cons hbs, ← htail, List.append_assoc] at hall
        rw [hbytes]
        exact List.append_cancel_left hall
    · have hshort : s.bytes <+: bs :=
        (List.prefix_or_prefix_of_prefix harrived (List.prefix_append _ _)).resolve_right hwhole
      have hne : s.bytes ≠ bs := fun he => hwhole (he ▸ List.prefix_rfl)
      exact .inr (hover (readFrame_short hbs hshort hne))

end InFlight

end InFlight

/-! ### The two parties -/

/-- Where `call` of the client is; `gone` once the client is dropped. -/
inductive ClientPhase where
  | idle
  | writing (rest : Bytes)
  | waiting
  | gone

/-- Where `serve_connection` is, with what it returned at the end. -/
inductive ServerPhase (Req : Type) where
  | reading
  | handling (req : Req)
  | writing (rest : Bytes)
  | stopped (result : Except FrameError Unit)

/-- What is yet to be written of a frame. -/
def ClientPhase.rest : ClientPhase → Bytes
  | writing rest => rest
  | _ => []

def ServerPhase.rest {Req : Type} : ServerPhase Req → Bytes
  | writing rest => rest
  | _ => []

/-- The parties and the two streams between them; beside them what was sent, what the calls
returned, which requests the handler was given with what it replied, the replies the server began
to write, and the faults its reads and writes met. -/
structure Connection (Req Resp : Type) where
  client : ClientPhase
  server : ServerPhase Req
  toServer : Source
  toClient : Source
  sent : List Req
  returned : List (Except FrameError Resp)
  handled : List (Req × Resp)
  replied : List Resp
  faults : List FrameError

/-- A step of the client: `n` more bytes are taken over by the stream, or a write fails. -/
inductive ClientOp (Req : Type) where
  | call (req : Req)
  | write (n : ℕ)
  | fail (text : String)
  | flush
  | read
  | close

/-- A step of the server, with what the handler replies. -/
inductive ServerOp (Resp : Type) where
  | read
  | handle (resp : Resp)
  | write (n : ℕ)
  | fail (text : String)
  | flush

/-- A step of a party, or a fault of a stream that keeps some of the bytes under way. -/
inductive ConnectionOp (Req Resp : Type) where
  | client (op : ClientOp Req)
  | server (op : ServerOp Resp)
  | breakToServer (kept : ℕ) (text : String)
  | breakToClient (kept : ℕ) (text : String)

namespace Connection

variable {Req Resp : Type} (q : Codec Req) (p : Codec Resp)

def start : Connection Req Resp where
  client := .idle
  server := .reading
  toServer := ⟨[], .live⟩
  toClient := ⟨[], .live⟩
  sent := []
  returned := []
  handled := []
  replied := []
  faults := []

/-- `IpcClient::call`. A write that fails leaves a stream that is broken. -/
def clientStep (s : Connection Req Resp) : ClientOp Req → Option (Connection Req Resp)
  | .call req =>
    match s.client with
    | .idle =>
      match q.frame req with
      | .error e => some { s with returned := s.returned ++ [.error e] }
      | .ok bs => some { s with client := .writing bs, sent := s.sent ++ [req] }
    | _ => none
  | .write n =>
    match s.client with
    | .writing rest =>
      if s.toServer.ending = .live ∧ 0 < n ∧ n ≤ rest.length then
        some { s with
          client := .writing (rest.drop n)
          toServer := s.toServer.arrive (rest.take n) }
      else none
    | _ => none
  | .fail text =>
    match s.client with
    | .writing _ => some { s with
        client := .idle
        toServer := s.toServer.breakAt s.toServer.bytes.length text
        returned := s.returned ++ [.error (.io text)] }
    | _ => none
  | .flush =>
    match s.client with
    | .writing [] => some { s with client := .waiting }
    | _ => none
  | .read =>
    match s.client with
    | .waiting => (readFrame p s.toClient).map fun (r, rest) =>
      { s with client := .idle, toClient := rest, returned := s.returned ++ [r] }
    | _ => none
  | .close => some { s with client := .gone, toServer := s.toServer.finish }

/-- `serve_connection`. At its return the stream is dropped. -/
def serverStep (s : Connection Req Resp) : ServerOp Resp → Option (Connection Req Resp)
  | .read =>
    match s.server with
    | .reading => (readFrame q s.toServer).map fun (r, rest) =>
      match r with
      | .ok req => { s with server := .handling req, toServer := rest }
      | .error .closed =>
        { s with server := .stopped (.ok ()), toServer := rest, toClient := s.toClient.finish }
      | .error e => { s with
          server := .stopped (.error e)
          toServer := rest
          toClient := s.toClient.finish
          faults := s.faults ++ [e] }
    | _ => none
  | .handle resp =>
    match s.server with
    | .handling req =>
      match p.frame resp with
      | .error e => some { s with
          server := .stopped (.error e)
          toClient := s.toClient.finish
          handled := s.handled ++ [(req, resp)]
          faults := s.faults ++ [e] }
      | .ok bs => some { s with
          server := .writing bs
          handled := s.handled ++ [(req, resp)]
          replied := s.replied ++ [resp] }
    | _ => none
  | .write n =>
    match s.server with
    | .writing rest =>
      if s.toClient.ending = .live ∧ 0 < n ∧ n ≤ rest.length then
        some { s with
          server := .writing (rest.drop n)
          toClient := s.toClient.arrive (rest.take n) }
      else none
    | _ => none
  | .fail text =>
    match s.server with
    | .writing _ => some { s with
        server := .stopped (.error (.io text))
        toClient := s.toClient.breakAt s.toClient.bytes.length text
        faults := s.faults ++ [.io text] }
    | _ => none
  | .flush =>
    match s.server with
    | .writing [] => some { s with server := .reading }
    | _ => none

def step (s : Connection Req Resp) : ConnectionOp Req Resp → Option (Connection Req Resp)
  | .client op => s.clientStep q p op
  | .server op => s.serverStep q p op
  | .breakToServer kept text => some { s with toServer := s.toServer.breakAt kept text }
  | .breakToClient kept text => some { s with toClient := s.toClient.breakAt kept text }

/-- The replies the client received. -/
def received (s : Connection Req Resp) : List Resp := s.returned.filterMap Except.toOption

/-- The requests the server has read. -/
def taken (s : Connection Req Resp) : List Req :=
  s.handled.map Prod.fst ++ match s.server with
    | .handling req => [req]
    | _ => []

/-! ### The invariant -/

/-- What both streams carry fits what the parties have done. -/
structure InStep (s : Connection Req Resp) : Prop where
  requests : ∃ pending, s.sent = s.taken ++ pending ∧ InFlight q pending s.toServer s.client.rest
  replies : ∃ pending, s.replied = s.received ++ pending ∧
    InFlight p pending s.toClient s.server.rest
  answered : s.replied <+: s.handled.map Prod.snd
  current : (∀ result, s.server ≠ .stopped result) → s.replied = s.handled.map Prod.snd
  failed : s.faults ≠ [] → ∃ result, s.server = .stopped result

variable {q p} {s s' : Connection Req Resp}

theorem inStep_start : InStep q p (start : Connection Req Resp) where
  requests := ⟨[], rfl, .start⟩
  replies := ⟨[], rfl, .start⟩
  answered := List.prefix_rfl
  current _ := rfl
  failed h := absurd rfl h

theorem InStep.client (hp : p.Lossless) (h : InStep q p s) {op : ClientOp Req}
    (hs : s.clientStep q p op = some s') : InStep q p s' := by
  obtain ⟨pending, hsent, hrequests⟩ := h.requests
  obtain ⟨due, hreplied, hreplies⟩ := h.replies
  cases op with
  | call req =>
    simp only [clientStep] at hs
    split at hs
    · rename_i hidle
      rw [hidle] at hrequests
      split at hs <;> cases hs
      · exact { h with replies := ⟨due, by simpa [received, List.filterMap_cons, Except.toOption]
          using hreplied, hreplies⟩ }
      · rename_i bs hframe
        exact { h with requests := ⟨pending ++ [req], by
          rw [hsent, List.append_assoc]
          rfl, hrequests.send hframe⟩ }
    · cases hs
  | write n =>
    simp only [clientStep] at hs
    split at hs
    · rename_i rest hwriting
      rw [hwriting] at hrequests
      split_ifs at hs with hlive
      cases hs
      exact { h with requests := ⟨pending, hsent, hrequests.write hlive.1 n⟩ }
    · cases hs
  | fail text =>
    simp only [clientStep] at hs
    split at hs
    · cases hs
      exact { h with
        requests := ⟨pending, hsent, hrequests.breakAt _ text _⟩
        replies := ⟨due, by simpa [received, List.filterMap_cons, Except.toOption] using hreplied,
          hreplies⟩ }
    · cases hs
  | flush =>
    simp only [clientStep] at hs
    split at hs
    · rename_i hwriting
      rw [hwriting] at hrequests
      cases hs
      exact { h with requests := ⟨pending, hsent, hrequests⟩ }
    · cases hs
  | read =>
    simp only [clientStep] at hs
    split at hs
    · rename_i hwaiting
      rw [hwaiting] at hrequests
      obtain ⟨⟨r, rest⟩, hread, rfl⟩ := Option.map_eq_some_iff.mp hs
      rcases hreplies.read hp hread with ⟨resp, due, rfl, rfl, hrest⟩ | ⟨⟨e, rfl⟩, hover⟩
      · exact { h with
          requests := ⟨pending, hsent, hrequests⟩
          replies := ⟨due, by simp [hreplied, received, Except.toOption], hrest⟩ }
      · exact { h with
          requests := ⟨pending, hsent, hrequests⟩
          replies := ⟨due, by simpa [received, List.filterMap_cons, Except.toOption] using hreplied,
            hover _⟩ }
    · cases hs
  | close =>
    cases hs
    exact { h with requests := ⟨pending, hsent, hrequests.finish _⟩ }

theorem InStep.server (hq : q.Lossless) (h : InStep q p s) {op : ServerOp Resp}
    (hs : s.serverStep q p op = some s') : InStep q p s' := by
  obtain ⟨pending, hsent, hrequests⟩ := h.requests
  obtain ⟨due, hreplied, hreplies⟩ := h.replies
  have hnone (hrun : ∀ result, s.server ≠ .stopped result) : s.faults = [] := by
    by_contra hne
    obtain ⟨result, hstopped⟩ := h.failed hne
    exact hrun result hstopped
  cases op with
  | read =>
    simp only [serverStep] at hs
    split at hs
    · rename_i hreading
      rw [hreading] at hreplies
      have hrun : ∀ result, s.server ≠ .stopped result := by rw [hreading]; nofun
      have htaken : s.taken = s.handled.map Prod.fst := by simp [taken, hreading]
      rw [htaken] at hsent
      obtain ⟨⟨r, rest⟩, hread, rfl⟩ := Option.map_eq_some_iff.mp hs
      rcases hrequests.read hq hread with ⟨req, pending, rfl, rfl, hrest⟩ | ⟨⟨e, rfl⟩, hover⟩
      · exact {
          requests := ⟨pending, by simp [hsent, taken], hrest⟩
          replies := ⟨due, hreplied, hreplies⟩
          answered := h.answered
          current := fun _ => h.current hrun
          failed := fun hne => absurd (hnone hrun) hne }
      · cases e with
        | closed => exact {
            requests := ⟨pending, by simp [hsent, taken], hover _⟩
            replies := ⟨due, hreplied, hreplies.finish _⟩
            answered := h.answered
            current := fun hne => absurd rfl (hne _)
            failed := fun _ => ⟨_, rfl⟩ }
        | _ => exact {
            requests := ⟨pending, by simp [hsent, taken], hover _⟩
            replies := ⟨due, hreplied, hreplies.finish _⟩
            answered := h.answered
            current := fun hne => absurd rfl (hne _)
            failed := fun _ => ⟨_, rfl⟩ }
    · cases hs
  | handle resp =>
    simp only [serverStep] at hs
    split at hs
    · rename_i req hhandling
      rw [hhandling] at hreplies
      have hrun : ∀ result, s.server ≠ .stopped result := by rw [hhandling]; nofun
      have htaken : s.taken = (s.handled ++ [(req, resp)]).map Prod.fst := by
        simp [taken, hhandling]
      have hcurrent := h.current hrun
      rw [htaken] at hsent
      split at hs <;> cases hs
      · exact {
          requests := ⟨pending, by simpa [taken] using hsent, hrequests⟩
          replies := ⟨due, hreplied, hreplies.finish _⟩
          answered := by simp [hcurrent]
          current := fun hne => absurd rfl (hne _)
          failed := fun _ => ⟨_, rfl⟩ }
      · rename_i bs hframe
        exact {
          requests := ⟨pending, by simpa [taken] using hsent, hrequests⟩
          replies := ⟨due ++ [resp], by simp [hreplied, received], hreplies.send hframe⟩
          answered := by simp [hcurrent]
          current := fun _ => by simp [hcurrent]
          failed := fun hne => absurd (hnone hrun) hne }
    · cases hs
  | write n =>
    simp only [serverStep] at hs
    split at hs
    · rename_i rest hwriting
      rw [hwriting] at hreplies
      have hrun : ∀ result, s.server ≠ .stopped result := by rw [hwriting]; nofun
      have htaken : s.taken = s.handled.map Prod.fst := by simp [taken, hwriting]
      rw [htaken] at hsent
      split_ifs at hs with hlive
      cases hs
      exact {
        requests := ⟨pending, by simpa [taken] using hsent, hrequests⟩
        replies := ⟨due, hreplied, hreplies.write hlive.1 n⟩
        answered := h.answered
        current := fun _ => h.current hrun
        failed := fun hne => absurd (hnone hrun) hne }
    · cases hs
  | fail text =>
    simp only [serverStep] at hs
    split at hs
    · rename_i rest hwriting
      have htaken : s.taken = s.handled.map Prod.fst := by simp [taken, hwriting]
      rw [htaken] at hsent
      cases hs
      exact {
        requests := ⟨pending, by simpa [taken] using hsent, hrequests⟩
        replies := ⟨due, hreplied, hreplies.breakAt _ text _⟩
        answered := h.answered
        current := fun hne => absurd rfl (hne _)
        failed := fun _ => ⟨_, rfl⟩ }
    · cases hs
  | flush =>
    simp only [serverStep] at hs
    split at hs
    · rename_i hwriting
      rw [hwriting] at hreplies
      have hrun : ∀ result, s.server ≠ .stopped result := by rw [hwriting]; nofun
      have htaken : s.taken = s.handled.map Prod.fst := by simp [taken, hwriting]
      rw [htaken] at hsent
      cases hs
      exact {
        requests := ⟨pending, by simpa [taken] using hsent, hrequests⟩
        replies := ⟨due, hreplied, hreplies⟩
        answered := h.answered
        current := fun _ => h.current hrun
        failed := fun hne => absurd (hnone hrun) hne }
    · cases hs

theorem InStep.step (hq : q.Lossless) (hp : p.Lossless) (h : InStep q p s)
    {op : ConnectionOp Req Resp} (hs : s.step q p op = some s') : InStep q p s' := by
  cases op with
  | client op => exact h.client hp hs
  | server op => exact h.server hq hs
  | breakToServer kept text =>
    cases hs
    obtain ⟨pending, hsent, hrequests⟩ := h.requests
    exact { h with requests := ⟨pending, hsent, hrequests.breakAt kept text _⟩ }
  | breakToClient kept text =>
    cases hs
    obtain ⟨due, hreplied, hreplies⟩ := h.replies
    exact { h with replies := ⟨due, hreplied, hreplies.breakAt kept text _⟩ }

theorem InStep.exec (hq : q.Lossless) (hp : p.Lossless) (h : InStep q p s)
    {ops : List (ConnectionOp Req Resp)} (hrun : exec (Connection.step q p) s ops = some s') :
    InStep q p s' := by
  induction ops generalizing s with
  | nil =>
    cases hrun
    exact h
  | cons op ops ih =>
    obtain ⟨u, hu, hops⟩ := Option.bind_eq_some_iff.mp hrun
    exact ih (h.step hq hp hu) hops

/-! ### What the parties can rely on -/

theorem getElem?_of_prefix {α : Type} {xs ys : List α} (h : xs <+: ys) {i : ℕ} {a : α}
    (hi : xs[i]? = some a) : ys[i]? = some a := by
  obtain ⟨zs, rfl⟩ := h
  obtain ⟨hlt, -⟩ := List.getElem?_eq_some_iff.mp hi
  rwa [List.getElem?_append_left hlt]

/-- The `i`-th reply that is received answers the `i`-th request that was sent, requests are handled
in the order they were sent, and none is replied to twice. -/
structure Lockstep (s : Connection Req Resp) : Prop where
  answers : ∀ (i : ℕ) resp, s.received[i]? = some resp →
    ∃ req, s.sent[i]? = some req ∧ s.handled[i]? = some (req, resp)
  order : s.handled.map Prod.fst <+: s.sent
  once : s.replied <+: s.handled.map Prod.snd

theorem InStep.lockstep (h : InStep q p s) : s.Lockstep := by
  obtain ⟨pending, hsent, -⟩ := h.requests
  obtain ⟨due, hreplied, -⟩ := h.replies
  have horder : s.handled.map Prod.fst <+: s.sent := by
    rw [hsent, taken, List.append_assoc]
    exact List.prefix_append _ _
  have hreceived : s.received <+: s.handled.map Prod.snd :=
    (hreplied ▸ List.prefix_append _ _ : s.received <+: s.replied).trans h.answered
  refine ⟨fun i resp hi => ?_, horder, h.answered⟩
  have hresp := getElem?_of_prefix hreceived hi
  rw [List.getElem?_map] at hresp
  obtain ⟨⟨req, _⟩, hhandled, rfl⟩ := Option.map_eq_some_iff.mp hresp
  refine ⟨req, getElem?_of_prefix horder ?_, hhandled⟩
  rw [List.getElem?_map, hhandled]
  rfl

/-- The client has no part in what the server does. -/
theorem clientStep_server {op : ClientOp Req} (hs : s.clientStep q p op = some s') :
    s'.server = s.server ∧ s'.handled = s.handled ∧ s'.replied = s.replied := by
  cases op with
  | read =>
    simp only [clientStep] at hs
    split at hs
    · obtain ⟨⟨r, rest⟩, -, rfl⟩ := Option.map_eq_some_iff.mp hs
      exact ⟨rfl, rfl, rfl⟩
    · cases hs
  | _ =>
    simp only [clientStep] at hs
    grind

/-- A server that has returned neither handles nor replies. -/
theorem step_stopped {result : Except FrameError Unit} (h : s.server = .stopped result)
    {op : ConnectionOp Req Resp} (hs : s.step q p op = some s') :
    s'.server = .stopped result ∧ s'.handled = s.handled ∧ s'.replied = s.replied := by
  cases op with
  | client op =>
    obtain ⟨hserver, hrest⟩ := clientStep_server hs
    exact ⟨hserver.trans h, hrest⟩
  | server op =>
    cases op <;> simp [step, serverStep, h] at hs
  | breakToServer kept text =>
    cases hs
    exact ⟨h, rfl, rfl⟩
  | breakToClient kept text =>
    cases hs
    exact ⟨h, rfl, rfl⟩

theorem exec_stopped {result : Except FrameError Unit} (h : s.server = .stopped result)
    {ops : List (ConnectionOp Req Resp)} (hrun : exec (step q p) s ops = some s') :
    s'.handled = s.handled ∧ s'.replied = s.replied := by
  induction ops generalizing s with
  | nil =>
    cases hrun
    exact ⟨rfl, rfl⟩
  | cons op ops ih =>
    obtain ⟨u, hu, hops⟩ := Option.bind_eq_some_iff.mp hrun
    obtain ⟨hstopped, hhandled, hreplied⟩ := step_stopped h hu
    obtain ⟨hhandled', hreplied'⟩ := ih hstopped hops
    exact ⟨hhandled'.trans hhandled, hreplied'.trans hreplied⟩

/-- Nothing is under way. -/
structure Quiet (s : Connection Req Resp) : Prop where
  client : s.client = .idle
  server : s.server = .reading
  toServer : s.toServer.bytes = [] ∧ s.toServer.ending = .live
  toClient : s.toClient.bytes = [] ∧ s.toClient.ending = .live

theorem quiet_start : (start : Connection Req Resp).Quiet := ⟨rfl, rfl, ⟨rfl, rfl⟩, ⟨rfl, rfl⟩⟩

/-- A call whose frames go through in one piece each. -/
def callOps (req : Req) (resp : Resp) (n m : ℕ) : List (ConnectionOp Req Resp) :=
  [.client (.call req), .client (.write n), .client .flush, .server .read, .server (.handle resp),
    .server (.write m), .server .flush, .client .read]

/-- Without a fault a call gets its reply, and another one may follow. -/
theorem exec_call (hq : q.Lossless) (hp : p.Lossless) (h : s.Quiet) {req : Req} {resp : Resp}
    {bs bs' : Bytes} (hreq : q.frame req = .ok bs) (hresp : p.frame resp = .ok bs') :
    ∃ s', exec (step q p) s (callOps req resp bs.length bs'.length) = some s' ∧ s'.Quiet ∧
      s'.returned = s.returned ++ [.ok resp] ∧ s'.faults = s.faults := by
  obtain ⟨hclient, hserver, ⟨hto, htolive⟩, hback, hbacklive⟩ := h
  have hpos : 0 < bs.length := by
    obtain ⟨body, -, -, rfl⟩ := frame_eq_ok.mp hreq
    simp [toBeBytes]
  have hpos' : 0 < bs'.length := by
    obtain ⟨body, -, -, rfl⟩ := frame_eq_ok.mp hresp
    simp [toBeBytes]
  have harrived : (s.toServer.arrive bs).bytes = bs ++ [] := by
    rw [Source.arrive_bytes, hto, List.nil_append, List.append_nil]
  have harrived' : (s.toClient.arrive bs').bytes = bs' ++ [] := by
    rw [Source.arrive_bytes, hback, List.nil_append, List.append_nil]
  obtain ⟨t, hread, htbytes, htending⟩ := readFrame_frame hq hreq harrived
  obtain ⟨t', hread', htbytes', htending'⟩ := readFrame_frame hp hresp harrived'
  refine ⟨{ s with
    client := .idle
    server := .reading
    toServer := t
    toClient := t'
    sent := s.sent ++ [req]
    returned := s.returned ++ [.ok resp]
    handled := s.handled ++ [(req, resp)]
    replied := s.replied ++ [resp] }, ?_,
    ⟨rfl, rfl, ⟨htbytes, htending.trans htolive⟩, htbytes', htending'.trans hbacklive⟩, rfl, rfl⟩
  simp [callOps, exec, step, clientStep, serverStep, hclient, hserver, hreq, hresp, htolive,
    hbacklive, hpos, hpos', hread, hread']

end Connection

/-- In every run of a connection, whatever the handler replies and wherever the streams fail, the
parties are in lock-step; once a read or a write of the server has failed, or the server has
returned, it handles no more requests and replies to none. -/
theorem lockstep_of_exec {Time : Type} [Chrono Time] {text : Bytes → String}
    {ops ops' : List (ConnectionOp Request (Response Time))}
    {s s' : Connection Request (Response Time)}
    (hrun : exec (Connection.step (serdeJson Request text) (serdeJson (Response Time) text))
      .start ops = some s)
    (hrest : exec (Connection.step (serdeJson Request text) (serdeJson (Response Time) text))
      s ops' = some s') :
    s.Lockstep ∧ (s.faults ≠ [] ∨ (∃ result, s.server = .stopped result) →
      s'.handled = s.handled ∧ s'.replied = s.replied) := by
  have hin := Connection.inStep_start.exec (serdeJson_lossless Request text)
    (serdeJson_lossless (Response Time) text) hrun
  refine ⟨hin.lockstep, fun hfault => ?_⟩
  obtain ⟨result, hstopped⟩ := hfault.elim hin.failed id
  exact Connection.exec_stopped hstopped hrest

theorem frame_serdeJson {α : Type} [Wire α] {text : Bytes → String} {v : α}
    (h : (toVec v).length ≤ maxFrameLen) :
    (serdeJson α text).frame v = .ok (toBeBytes (toVec v).length ++ toVec v) :=
  frame_eq_ok.mpr ⟨_, rfl, h, rfl⟩

/-- A call for the sessions gets its reply, and then the stream to the server breaks. -/
def brokenOps : List (ConnectionOp Request (Response Stamp)) :=
  Connection.callOps .listSessions (.sessions []) 26 35 ++
    [.breakToServer 0 "reset", .server .read]

/-- The server meets the break; then the client is dropped. -/
theorem lockstep_of_exec_broken : ∃ s s' : Connection Request (Response Stamp),
    exec (Connection.step (serdeJson Request fun _ => "") (serdeJson (Response Stamp) fun _ => ""))
      .start brokenOps = some s ∧ s.faults = [.io "reset"] ∧ s.Lockstep ∧
    exec (Connection.step (serdeJson Request fun _ => "") (serdeJson (Response Stamp) fun _ => ""))
      s [.client .close] = some s' ∧ s'.handled = s.handled ∧ s'.replied = s.replied := by
  have hreq : (toVec Request.listSessions).length = 22 := by decide +kernel
  have hresp : (toVec (Response.sessions [] : Response Stamp)).length = 31 := by decide +kernel
  obtain ⟨u, hcall, hquiet, -, hfaults⟩ := Connection.exec_call
    (serdeJson_lossless Request fun _ => "") (serdeJson_lossless (Response Stamp) fun _ => "")
    Connection.quiet_start (frame_serdeJson (by rw [hreq]; decide))
    (frame_serdeJson (by rw [hresp]; decide))
  rw [List.length_append, List.length_append, length_toBeBytes, length_toBeBytes, hreq, hresp]
    at hcall
  obtain ⟨s, hrun, hs⟩ : ∃ s, exec (Connection.step (serdeJson Request fun _ => "")
      (serdeJson (Response Stamp) fun _ => "")) .start brokenOps = some s ∧
      s.faults = [.io "reset"] := by
    rw [brokenOps, exec_append, hcall, Option.bind_some, exec, Connection.step, Option.bind_some,
      exec, Connection.step, Connection.serverStep]
    simp only [hquiet.server]
    exact ⟨_, rfl, congrArg (· ++ _) hfaults⟩
  obtain ⟨hin, hrest⟩ := @lockstep_of_exec Stamp _ (fun _ => "") brokenOps [.client .close] s _ hrun
    rfl
  exact ⟨s, _, hrun, hs, hin, rfl, hrest (.inl (by rw [hs]; simp))⟩

end Aegis.Ipc
