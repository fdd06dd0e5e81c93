import Aegis.Ipc.Protocol
import Aegis.Lib.Stream

/-! Length-prefixed frames over a byte stream: how they are written and read, and that a stream of
frames is read back whatever the chunks it arrives in. -/
namespace Aegis.Ipc
open Text Stream

inductive FrameError where
  | closed
  | tooLarge (len max : ℕ)
  | io (text : String)
  | decode (text : String)
  deriving DecidableEq

namespace FrameError

def isClosed : FrameError → Bool
  | closed => true
  | _ => false

/-- The error of the workspace it is mapped to. -/
def toError : FrameError → Error
  | closed => .system "connection closed"
  | tooLarge len max => .system ("oversized frame: " ++ toString len ++ " > " ++ toString max)
  | io text => .system ("io: " ++ text)
  | decode text => .system ("decode: " ++ text)

/-- A framing fault is never one of containment. -/
theorem toError_failureClass (e : FrameError) : e.toError.failureClass = .system := by
  cases e <;> rfl

end FrameError

/-- The largest body that is accepted. -/
def maxFrameLen : ℕ := 16 * 1024 * 1024

/-- How values are encoded and decoded, with the texts of the errors. -/
structure Codec (α : Type) where
  encode : α → Except String Bytes
  decode : Bytes → Except String α

/-- What is encoded is decoded. -/
def Codec.Lossless {α : Type} (c : Codec α) : Prop :=
  ∀ v body, c.encode v = .ok body → c.decode body = .ok v

/-- JSON, with the texts that refused bytes are reported with. -/
def serdeJson (α : Type) [Wire α] (text : Bytes → String) : Codec α where
  encode a := .ok (toVec a)
  decode bs :=
    match fromSlice α bs with
    | some a => .ok a
    | none => .error (text bs)

theorem serdeJson_lossless (α : Type) [Wire α] (text : Bytes → String) :
    (serdeJson α text).Lossless := by
  rintro v body h
  obtain rfl : toVec v = body := Except.ok.inj h
  simp [serdeJson, fromSlice_toVec]

variable {α : Type} (c : Codec α)

/-- The bytes of a frame. -/
def Codec.frame (v : α) : Except FrameError Bytes :=
  match c.encode v with
  | .error text => .error (.decode text)
  | .ok body =>
    if maxFrameLen < body.length then .error (.tooLarge body.length maxFrameLen)
    else .ok (toBeBytes body.length ++ body)

def writeFrame (v : α) (s : Sink) : Except FrameError Unit × Sink :=
  match c.encode v with
  | .error text => (.error (.decode text), s)
  | .ok body =>
    if maxFrameLen < body.length then (.error (.tooLarge body.length maxFrameLen), s)
    else match s.writeAll (toBeBytes body.length) with
      | (.error text, s) => (.error (.io text), s)
      | (.ok (), s) =>
        match s.writeAll body with
        | (.error text, s) => (.error (.io text), s)
        | (.ok (), s) => (.ok (), s)

/-- A frame from the head of a stream; none while bytes are missing that may still come. -/
def readFrame (s : Source) : Option (Except FrameError α × Source) :=
  match s.readExact 4 with
  | (.error .live, _) => none
  | (.error .eof, s) => some (.error .closed, s)
  | (.error (.fault text), s) => some (.error (.io text), s)
  | (.ok header, s) =>
    let len := fromBeBytes header
    if maxFrameLen < len then some (.error (.tooLarge len maxFrameLen), s)
    else match s.readExact len with
      | (.error .live, _) => none
      | (.error .eof, s) => some (.error (.io "early eof"), s)
      | (.error (.fault text), s) => some (.error (.io text), s)
      | (.ok body, s) => some ((c.decode body).mapError .decode, s)

/-- Successive writes, up to the first that fails. -/
def writeFrames : List α → Sink → Except FrameError Unit × Sink
  | [], s => (.ok (), s)
  | v :: vs, s =>
    match writeFrame c v s with
    | (.ok (), s) => writeFrames vs s
    | (.error e, s) => (.error e, s)

/-- What successive reads return. -/
def readFrames : ℕ → Source → Option (List (Except FrameError α) × Source)
  | 0, s => some ([], s)
  | n + 1, s => do
    let (r, s) ← readFrame c s
    let (rs, s) ← readFrames n s
    return (r :: rs, s)

/-! ### Frames one by one -/

section Frame

variable {c} {v : α} {bs tail : Bytes} {s : Source}

/-- A value has a frame exactly when its body is not too long. -/
theorem frame_eq_ok : c.frame v = .ok bs ↔ ∃ body, c.encode v = .ok body ∧
    body.length ≤ maxFrameLen ∧ bs = toBeBytes body.length ++ body := by
  unfold Codec.frame
  cases c.encode v with
  | error text => simp
  | ok body =>
    dsimp only
    split_ifs with hlen
    · simp only [Except.ok.injEq, false_iff, not_exists, not_and]
      rintro _ rfl hle
      omega
    · simp only [Except.ok.injEq]
      constructor
      · rintro rfl
        exact ⟨body, rfl, not_lt.mp hlen, rfl⟩
      · rintro ⟨_, rfl, -, rfl⟩
        rfl

theorem length_toBeBytes (n : ℕ) : (toBeBytes n).length = 4 := rfl

theorem fromBeBytes_frame {n : ℕ} (h : n ≤ maxFrameLen) : fromBeBytes (toBeBytes n) = n :=
  fromBeBytes_toBeBytes (h.trans_lt (by decide))

/-- A frame at the head of a stream is read, and what follows it is left. -/
theorem readFrame_frame (hc : c.Lossless) (h : c.frame v = .ok bs) (hs : s.bytes = bs ++ tail) :
    ∃ rest, readFrame c s = some (.ok v, rest) ∧ rest.bytes = tail ∧ rest.ending = s.ending := by
  obtain ⟨body, hbody, hle, rfl⟩ := frame_eq_ok.mp h
  rw [List.append_assoc] at hs
  obtain ⟨s₁, hheader, hbytes₁, hending₁⟩ := Source.readExact_append hs
  obtain ⟨s₂, hread, hbytes₂, hending₂⟩ := Source.readExact_append hbytes₁
  rw [length_toBeBytes] at hheader
  refine ⟨s₂, ?_, hbytes₂, hending₂.trans hending₁⟩
  unfold readFrame
  rw [hheader]
  dsimp only
  rw [fromBeBytes_frame hle, if_neg (by omega), hread]
  dsimp only
  rw [hc v body hbody]
  rfl

/-- Without a whole header the reader waits for more or, where no more come, gives up with nothing
left. -/
theorem readFrame_header (h : s.bytes.length < 4) :
    (s.ending = .live ∧ readFrame c s = none) ∨
      ∃ e rest, readFrame c s = some (.error e, rest) ∧ rest.bytes = [] ∧ rest.ending = s.ending ∧
        s.ending ≠ .live := by
  unfold readFrame
  rw [Source.readExact_of_lt h]
  cases s.ending with
  | live => exact .inl ⟨rfl, rfl⟩
  | eof => exact .inr ⟨.closed, _, rfl, rfl, rfl, nofun⟩
  | fault text => exact .inr ⟨.io text, _, rfl, rfl, rfl, nofun⟩

/-- The same where the bytes of a frame are not all there. -/
theorem readFrame_short (h : c.frame v = .ok bs) (hs : s.bytes <+: bs) (hne : s.bytes ≠ bs) :
    (s.ending = .live ∧ readFrame c s = none) ∨
      ∃ e rest, readFrame c s = some (.error e, rest) ∧ rest.bytes = [] ∧ rest.ending = s.ending ∧
        s.ending ≠ .live := by
  obtain ⟨body, hbody, hle, rfl⟩ := frame_eq_ok.mp h
  by_cases hheader : s.bytes.length < 4
  · exact readFrame_header hheader
  · have hprefix : toBeBytes body.length <+: s.bytes :=
      List.prefix_of_prefix_length_le (List.prefix_append _ _) hs (by
        rw [length_toBeBytes]
        omega)
    obtain ⟨part, hpart⟩ := hprefix
    rw [← hpart] at hs hne
    have hlt : part.length < body.length := by
      have hbelow : part <+: body := List.prefix_append_right_inj _ |>.mp hs
      refine lt_of_le_of_ne hbelow.length_le fun he => hne ?_
      rw [hbelow.eq_of_length he]
    obtain ⟨s₁, hread, hbytes, hending₁⟩ := Source.readExact_append hpart.symm
    rw [length_toBeBytes] at hread
    unfold readFrame
    rw [hread]
    dsimp only
    rw [fromBeBytes_frame hle, if_neg (by omega), Source.readExact_of_lt (by rwa [hbytes]),
      hending₁]
    cases s.ending with
    | live => exact .inl ⟨rfl, rfl⟩
    | eof => exact .inr ⟨_, _, rfl, rfl, rfl, nofun⟩
    | fault text => exact .inr ⟨_, _, rfl, rfl, rfl, nofun⟩

/-- A stream that is over is closed for the reader. -/
theorem readFrame_closed (hs : s.bytes = []) (hending : s.ending = .eof) :
    ∃ rest, readFrame c s = some (.error .closed, rest) := by
  unfold readFrame
  rw [Source.readExact_of_lt (by simp [hs]), hending]
  exact ⟨_, rfl⟩

end Frame

/-! ### Streams of frames -/

/-- The frames of values one after the other. -/
def Codec.frames (vs : List α) : Bytes := vs.flatMap fun v => ((c.frame v).toOption).getD []

section Frames

variable {c} {v : α} {vs : List α} {bs : Bytes} {s : Source}

@[simp] theorem frames_nil : c.frames [] = [] := rfl

theorem frames_cons (h : c.frame v = .ok bs) : c.frames (v :: vs) = bs ++ c.frames vs := by
  simp [Codec.frames, h, Except.toOption]

theorem frames_append (vs ws : List α) : c.frames (vs ++ ws) = c.frames vs ++ c.frames ws :=
  List.flatMap_append

/-- Writing a value without a fault appends its frame. -/
theorem writeFrame_frame (h : c.frame v = .ok bs) (out : Bytes) :
    writeFrame c v ⟨out, none⟩ = (.ok (), ⟨out ++ bs, none⟩) := by
  obtain ⟨body, hbody, hle, rfl⟩ := frame_eq_ok.mp h
  unfold writeFrame
  rw [hbody]
  dsimp only
  rw [if_neg (by omega)]
  simp [Sink.writeAll]

theorem writeFrames_frames (hvs : ∀ v ∈ vs, ∃ bs, c.frame v = .ok bs) (out : Bytes) :
    writeFrames c vs ⟨out, none⟩ = (.ok (), ⟨out ++ c.frames vs, none⟩) := by
  induction vs generalizing out with
  | nil => simp [writeFrames]
  | cons v vs ih =>
    obtain ⟨bs, hbs⟩ := hvs v List.mem_cons_self
    rw [writeFrames, writeFrame_frame hbs, frames_cons hbs]
    dsimp only
    rw [ih fun w hw => hvs w (List.mem_cons_of_mem v hw), List.append_assoc]

/-- A stream of frames that ends behind the last one is read value by value. -/
theorem readFrames_frames (hc : c.Lossless) (hvs : ∀ v ∈ vs, ∃ bs, c.frame v = .ok bs)
    (hs : s.bytes = c.frames vs) (hending : s.ending = .eof) : ∃ rest,
      readFrames c (vs.length + 1) s = some (vs.map .ok ++ [.error .closed], rest) := by
  induction vs generalizing s with
  | nil =>
    obtain ⟨rest, hread⟩ := readFrame_closed (c := c) hs hending
    exact ⟨rest, by simp [readFrames, hread]⟩
  | cons v vs ih =>
    obtain ⟨bs, hbs⟩ := hvs v List.mem_cons_self
    rw [frames_cons hbs] at hs
    obtain ⟨s₁, hread, hbytes, hending₁⟩ := readFrame_frame hc hbs hs
    obtain ⟨rest, hrest⟩ :=
      ih (fun w hw => hvs w (List.mem_cons_of_mem v hw)) hbytes (hending₁.trans hending)
    refine ⟨rest, ?_⟩
    rw [List.length_cons, readFrames, hread]
    simp [hrest]

end Frames

/-- What successive writes put on a stream is read back in order, in whatever chunks it arrives,
and then the stream is closed. -/
theorem frames_roundtrip {c : Codec α} {vs : List α} (hc : c.Lossless)
    (hvs : ∀ v ∈ vs, ∃ body, c.encode v = .ok body ∧ body.length ≤ maxFrameLen) :
    ∃ out, writeFrames c vs ⟨[], none⟩ = (.ok (), ⟨out, none⟩) ∧
      ∀ chunks : List Bytes, chunks.flatten = out → ∃ rest,
        readFrames c (vs.length + 1) ⟨chunks, .eof⟩ =
          some (vs.map .ok ++ [.error .closed], rest) := by
  have hframe : ∀ v ∈ vs, ∃ bs, c.frame v = .ok bs := by
    intro v hv
    obtain ⟨body, hbody, hle⟩ := hvs v hv
    exact ⟨_, frame_eq_ok.mpr ⟨body, hbody, hle, rfl⟩⟩
  refine ⟨c.frames vs, by rw [writeFrames_frames hframe, List.nil_append], ?_⟩
  intro chunks hchunks
  exact readFrames_frames hc hframe hchunks rfl

/-- Two requests one after the other, in JSON. -/
theorem frames_roundtrip_sent :
    ∃ out, writeFrames (serdeJson Request fun _ => "") [.doctor, sentRequest] ⟨[], none⟩ =
      (.ok (), ⟨out, none⟩) ∧ ∀ chunks : List Bytes, chunks.flatten = out → ∃ rest,
        readFrames (serdeJson Request fun _ => "") 3 ⟨chunks, .eof⟩ =
          some ([.ok .doctor, .ok sentRequest, .error .closed], rest) := by
  have hdoctor : (toVec Request.doctor).length ≤ maxFrameLen := by decide +kernel
  have hsent : (toVec sentRequest).length ≤ maxFrameLen := by decide +kernel
  refine frames_roundtrip (serdeJson_lossless Request fun _ => "") fun v hv => ⟨_, rfl, ?_⟩
  simp only [List.mem_cons, List.not_mem_nil, or_false] at hv
  rcases hv with rfl | rfl
  · exact hdoctor
  · exact hsent

/-! ### What a stream that is over is read as -/

/-- The length that the header of a stream declares. -/
def declaredLen (bs : Bytes) : ℕ := fromBeBytes (bs.take 4)

/-- The body that the header declares. -/
def declaredBody (bs : Bytes) : Bytes := (bs.drop 4).take (declaredLen bs)

/-- Some of the header is there, but not all of it. -/
def HeaderTruncated (bs : Bytes) : Prop := 0 < bs.length ∧ bs.length < 4

/-- The header declares a length that is not accepted. -/
def Oversized (bs : Bytes) : Prop := 4 ≤ bs.length ∧ maxFrameLen < declaredLen bs

/-- The header is accepted, but the stream ends within the body. -/
def BodyTruncated (bs : Bytes) : Prop :=
  4 ≤ bs.length ∧ declaredLen bs ≤ maxFrameLen ∧ bs.length < 4 + declaredLen bs

/-- The header is accepted and the body is there. -/
def Complete (bs : Bytes) : Prop :=
  4 ≤ bs.length ∧ declaredLen bs ≤ maxFrameLen ∧ 4 + declaredLen bs ≤ bs.length

/-- The result of a read is the one that the bytes call for: which of the errors it is, or the
value, behind which just the header and the body are consumed. -/
structure Classified (c : Codec α) (bs : Bytes) (r : Except FrameError α × Source) : Prop where
  closed : r.1 = .error .closed ↔ bs = []
  tooLarge : ∀ len max, r.1 = .error (.tooLarge len max) ↔
    Oversized bs ∧ len = declaredLen bs ∧ max = maxFrameLen
  io : (∃ text, r.1 = .error (.io text)) ↔ HeaderTruncated bs ∨ BodyTruncated bs
  decode : ∀ text, r.1 = .error (.decode text) ↔
    Complete bs ∧ c.decode (declaredBody bs) = .error text
  value : ∀ v, r.1 = .ok v ↔ Complete bs ∧ c.decode (declaredBody bs) = .ok v
  consumed : ∀ v, r.1 = .ok v → r.2.bytes = bs.drop (4 + declaredLen bs)

section Classes

variable {c} {s : Source}

/-- A header that is not all there is taken for the end of the stream. -/
theorem readFrame_of_lt (hending : s.ending = .eof) (h : s.bytes.length < 4) :
    ∃ rest, readFrame c s = some (.error .closed, rest) := by
  unfold readFrame
  rw [Source.readExact_of_lt h, hending]
  exact ⟨_, rfl⟩

/-- With a header, the reader goes by the length it declares. -/
theorem readFrame_of_header (h : 4 ≤ s.bytes.length) : ∃ rest : Source,
    rest.bytes = s.bytes.drop 4 ∧ rest.ending = s.ending ∧ readFrame c s =
      if maxFrameLen < declaredLen s.bytes then
        some (.error (.tooLarge (declaredLen s.bytes) maxFrameLen), rest)
      else match rest.readExact (declaredLen s.bytes) with
        | (.error .live, _) => none
        | (.error .eof, s) => some (.error (.io "early eof"), s)
        | (.error (.fault text), s) => some (.error (.io text), s)
        | (.ok body, s) => some ((c.decode body).mapError .decode, s) := by
  obtain ⟨rest, hread, hbytes, hending⟩ := Source.readExact_of_le h
  refine ⟨rest, hbytes, hending, ?_⟩
  unfold readFrame
  rw [hread]
  rfl

theorem readFrame_of_oversized (h : Oversized s.bytes) : ∃ rest,
    readFrame c s = some (.error (.tooLarge (declaredLen s.bytes) maxFrameLen), rest) := by
  obtain ⟨rest, -, -, hread⟩ := readFrame_of_header (c := c) h.1
  rw [if_pos h.2] at hread
  exact ⟨rest, hread⟩

theorem readFrame_of_bodyTruncated (hending : s.ending = .eof) (h : BodyTruncated s.bytes) :
    ∃ rest, readFrame c s = some (.error (.io "early eof"), rest) := by
  obtain ⟨hheader, hle, hlt⟩ := h
  obtain ⟨rest, hbytes, hrest, hread⟩ := readFrame_of_header (c := c) hheader
  have hshort : rest.bytes.length < declaredLen s.bytes := by
    rw [hbytes, List.length_drop]
    omega
  rw [if_neg (not_lt.mpr hle), Source.readExact_of_lt hshort, hrest, hending] at hread
  exact ⟨_, hread⟩

theorem readFrame_of_complete (h : Complete s.bytes) : ∃ rest,
    readFrame c s = some ((c.decode (declaredBody s.bytes)).mapError .decode, rest) ∧
      rest.bytes = s.bytes.drop (4 + declaredLen s.bytes) := by
  obtain ⟨hheader, hle, hall⟩ := h
  obtain ⟨rest, hbytes, -, hread⟩ := readFrame_of_header (c := c) hheader
  have hbody : declaredLen s.bytes ≤ rest.bytes.length := by
    rw [hbytes, List.length_drop]
    omega
  obtain ⟨last, hexact, hlast, -⟩ := Source.readExact_of_le hbody
  rw [if_neg (not_lt.mpr hle), hexact, hbytes] at hread
  refine ⟨last, hread, ?_⟩
  rw [hlast, hbytes, List.drop_drop]

/-- The classes of streams with a header exclude each other, and there is no other one. -/
theorem class_cases {bs : Bytes} (h : 4 ≤ bs.length) :
    (Oversized bs ∧ ¬ BodyTruncated bs ∧ ¬ Complete bs) ∨
      (BodyTruncated bs ∧ ¬ Oversized bs ∧ ¬ Complete bs) ∨
      (Complete bs ∧ ¬ Oversized bs ∧ ¬ BodyTruncated bs) := by
  unfold Oversized BodyTruncated Complete
  omega

end Classes

section Classification

variable {c} {bs : Bytes} {rest : Source}

theorem Classified.nil : Classified c [] (.error .closed, rest) where
  closed := by simp
  tooLarge := by simp [Oversized]
  io := by simp [HeaderTruncated, BodyTruncated]
  decode := by simp [Complete]
  value := by simp [Complete]
  consumed := nofun

theorem Classified.oversized (h : Oversized bs) :
    Classified c bs (.error (.tooLarge (declaredLen bs) maxFrameLen), rest) := by
  have hheader : ¬ HeaderTruncated bs := fun ht => absurd h.1 (not_le.mpr ht.2)
  have hne : bs ≠ [] := by
    rintro rfl
    exact absurd h.1 (by decide)
  obtain ⟨-, hbody, hcomplete⟩ | ⟨-, hnot, -⟩ | ⟨-, hnot, -⟩ := class_cases h.1
  · refine ⟨by simp [hne], fun len max => ?_, by simp [hheader, hbody], by simp [hcomplete],
      by simp [hcomplete], nofun⟩
    simp only [Except.error.injEq, FrameError.tooLarge.injEq, h, true_and]
    exact and_congr eq_comm eq_comm
  · exact absurd h hnot
  · exact absurd h hnot

theorem Classified.bodyTruncated (h : BodyTruncated bs) (text : String) :
    Classified c bs (.error (.io text), rest) := by
  have hne : bs ≠ [] := by
    rintro rfl
    exact absurd h.1 (by decide)
  obtain ⟨-, hnot, -⟩ | ⟨-, hover, hcomplete⟩ | ⟨-, -, hnot⟩ := class_cases h.1
  · exact absurd h hnot
  · exact ⟨by simp [hne], by simp [hover], by simp [h], by simp [hcomplete], by simp [hcomplete],
      nofun⟩
  · exact absurd h hnot

theorem Classified.complete (h : Complete bs) (hrest : rest.bytes = bs.drop (4 + declaredLen bs)) :
    Classified c bs ((c.decode (declaredBody bs)).mapError .decode, rest) := by
  have hheader : ¬ HeaderTruncated bs := fun ht => absurd h.1 (not_le.mpr ht.2)
  have hne : bs ≠ [] := by
    rintro rfl
    exact absurd h.1 (by decide)
  obtain ⟨-, -, hnot⟩ | ⟨-, -, hnot⟩ | ⟨-, hover, hbody⟩ := class_cases h.1
  · exact absurd h hnot
  · exact absurd h hnot
  · cases hdecode : c.decode (declaredBody bs) with
    | error text =>
      exact ⟨by simp [Except.mapError, hne], by simp [Except.mapError, hover],
        by simp [Except.mapError, hheader, hbody], by simp [Except.mapError, h, hdecode],
        by simp [Except.mapError, hdecode], nofun⟩
    | ok v =>
      exact ⟨by simp [Except.mapError, hne], by simp [Except.mapError, hover],
        by simp [Except.mapError, hheader, hbody], by simp [Except.mapError, hdecode],
        by simp [Except.mapError, h, hdecode], fun _ _ => hrest⟩

end Classification

/-- What is read of a stream that is over, whatever the chunks it arrived in, is of the class that
its bytes call for unless it ends within a header: that is reported as a close. -/
theorem classified_iff (c : Codec α) (chunks : List Bytes) :
    (∃ r, readFrame c ⟨chunks, .eof⟩ = some r ∧ Classified c chunks.flatten r) ↔
      ¬ HeaderTruncated chunks.flatten := by
  constructor
  · rintro ⟨r, hread, hclass⟩ hheader
    obtain ⟨rest, hclosed⟩ := readFrame_of_lt (c := c) (s := ⟨chunks, .eof⟩) rfl hheader.2
    obtain rfl := Option.some.inj (hclosed.symm.trans hread)
    have hnil : chunks.flatten = [] := hclass.closed.mp rfl
    exact absurd hheader.1 (by simp [hnil])
  · intro hheader
    by_cases hlt : chunks.flatten.length < 4
    · have hnil : chunks.flatten = [] := by
        apply List.eq_nil_of_length_eq_zero
        by_contra hne
        exact hheader ⟨Nat.pos_of_ne_zero hne, hlt⟩
      obtain ⟨rest, hread⟩ := readFrame_of_lt (c := c) (s := ⟨chunks, .eof⟩) rfl hlt
      refine ⟨_, hread, ?_⟩
      rw [hnil]
      exact .nil
    · obtain ⟨hover, -⟩ | ⟨hbody, -⟩ | ⟨hcomplete, -⟩ := class_cases (not_lt.mp hlt)
      · obtain ⟨rest, hread⟩ := readFrame_of_oversized (c := c) (s := ⟨chunks, .eof⟩) hover
        exact ⟨_, hread, .oversized hover⟩
      · obtain ⟨rest, hread⟩ :=
          readFrame_of_bodyTruncated (c := c) (s := ⟨chunks, .eof⟩) rfl hbody
        exact ⟨_, hread, .bodyTruncated hbody _⟩
      · obtain ⟨rest, hread, hrest⟩ :=
          readFrame_of_complete (c := c) (s := ⟨chunks, .eof⟩) hcomplete
        exact ⟨_, hread, .complete hcomplete hrest⟩

/-- A stream that ends after one byte of a header is reported as closed. -/
theorem not_classified_truncated : ∃ rest,
    readFrame (serdeJson Request fun _ => "") ⟨[[0]], .eof⟩ = some (.error .closed, rest) ∧
      ¬ Classified (serdeJson Request fun _ => "") [0] (.error .closed, rest) :=
  ⟨⟨[], .eof⟩, rfl, fun h => absurd (h.closed.mp rfl) (List.cons_ne_nil _ _)⟩

end Aegis.Ipc
