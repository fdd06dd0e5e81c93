import Aegis.Lib.Bytes
import Mathlib.Algebra.Group.Nat.Defs

/-! Byte streams: what a reader makes of a stream that arrives in chunks, and writers that may
fail after any byte. -/
namespace Stream
open Text

/-- What a reader meets behind the bytes that have arrived: more may come, the writer is done, or
the stream is broken. -/
inductive Ending where
  | live
  | eof
  | fault (text : String)
  deriving DecidableEq

/-- The bytes that have arrived and are not yet read, in the chunks they arrived in; an empty
chunk is none. -/
structure Source where
  chunks : List Bytes
  ending : Ending

/-- The first `n` bytes of some chunks, and what is left of them. -/
def takeBytes : ℕ → List Bytes → Option (Bytes × List Bytes)
  | 0, cs => some ([], cs)
  | _ + 1, [] => none
  | n + 1, c :: cs =>
    if n + 1 ≤ c.length then some (c.take (n + 1), c.drop (n + 1) :: cs)
    else (takeBytes (n + 1 - c.length) cs).map fun (bs, cs) => (c ++ bs, cs)

/-- `read_exact`: the bytes, or the ending that came before the last of them. Where more may come
the reader waits, and has read nothing yet. -/
def Source.readExact (n : ℕ) (s : Source) : Except Ending Bytes × Source :=
  match takeBytes n s.chunks with
  | some (bs, cs) => (.ok bs, { s with chunks := cs })
  | none => (.error s.ending, if s.ending = .live then s else { s with chunks := [] })

/-- The bytes of a source, whatever the chunks. -/
def Source.bytes (s : Source) : Bytes := s.chunks.flatten

theorem takeBytes_of_le {n : ℕ} {cs : List Bytes} (h : n ≤ cs.flatten.length) :
    ∃ rest, takeBytes n cs = some (cs.flatten.take n, rest) ∧ rest.flatten = cs.flatten.drop n := by
  induction cs generalizing n with
  | nil =>
    obtain rfl : n = 0 := by simpa using h
    exact ⟨[], rfl, rfl⟩
  | cons c cs ih =>
    cases n with
    | zero => exact ⟨c :: cs, rfl, rfl⟩
    | succ n =>
      rw [List.flatten_cons, List.length_append] at h
      rw [takeBytes, List.flatten_cons]
      split_ifs with hc
      · refine ⟨_, by rw [List.take_append_of_le_length hc], ?_⟩
        rw [List.flatten_cons, List.drop_append_of_le_length hc]
      · obtain ⟨rest, htake, hdrop⟩ := ih (n := n + 1 - c.length) (by omega)
        have hall : c.length ≤ n + 1 := by omega
        refine ⟨rest, ?_, ?_⟩
        · rw [htake, Option.map_some, List.take_append, List.take_of_length_le hall]
        · rw [hdrop, List.drop_append, List.drop_of_length_le hall, List.nil_append]

theorem takeBytes_of_lt {n : ℕ} {cs : List Bytes} (h : cs.flatten.length < n) :
    takeBytes n cs = none := by
  induction cs generalizing n with
  | nil =>
    obtain ⟨m, rfl⟩ : ∃ m, n = m + 1 := ⟨n - 1, by omega⟩
    rfl
  | cons c cs ih =>
    obtain ⟨m, rfl⟩ : ∃ m, n = m + 1 := ⟨n - 1, by omega⟩
    rw [List.flatten_cons, List.length_append] at h
    rw [takeBytes, if_neg (by omega), ih (by omega), Option.map_none]

namespace Source

variable {n : ℕ} {s : Source}

/-- Enough bytes: they are read, and the others are left. -/
theorem readExact_of_le (h : n ≤ s.bytes.length) : ∃ rest,
    s.readExact n = (.ok (s.bytes.take n), rest) ∧ rest.bytes = s.bytes.drop n ∧
      rest.ending = s.ending := by
  obtain ⟨rest, htake, hdrop⟩ := takeBytes_of_le h
  refine ⟨{ s with chunks := rest }, ?_, hdrop, rfl⟩
  unfold readExact
  rw [htake]
  rfl

/-- Too few bytes: the reader meets the ending. -/
theorem readExact_of_lt (h : s.bytes.length < n) : s.readExact n =
    (.error s.ending, if s.ending = .live then s else { s with chunks := [] }) := by
  unfold readExact
  rw [takeBytes_of_lt h]

/-- The next bytes of a source that has them. -/
theorem readExact_append {bs cs : Bytes} (h : s.bytes = bs ++ cs) : ∃ rest,
    s.readExact bs.length = (.ok bs, rest) ∧ rest.bytes = cs ∧ rest.ending = s.ending := by
  obtain ⟨rest, hread, hbytes, hending⟩ := readExact_of_le (n := bs.length) (s := s) (by simp [h])
  rw [h, List.take_left] at hread
  rw [h, List.drop_left] at hbytes
  exact ⟨rest, hread, hbytes, hending⟩

/-- More bytes arrive. -/
def arrive (s : Source) (bs : Bytes) : Source := { s with chunks := s.chunks ++ [bs] }

/-- The writer is done. -/
def finish (s : Source) : Source := if s.ending = .live then { s with ending := .eof } else s

/-- The stream breaks; of the bytes that have arrived the first `kept` can still be read. -/
def breakAt (s : Source) (kept : ℕ) (text : String) : Source := ⟨[s.bytes.take kept], .fault text⟩

@[simp] theorem arrive_bytes (s : Source) (bs : Bytes) : (s.arrive bs).bytes = s.bytes ++ bs := by
  simp [arrive, bytes]

@[simp] theorem finish_bytes (s : Source) : s.finish.bytes = s.bytes := by
  unfold finish
  split_ifs <;> rfl

theorem finish_ending (s : Source) : s.finish.ending ≠ .live := by
  unfold finish
  split_ifs with h
  · nofun
  · exact h

@[simp] theorem breakAt_bytes (s : Source) (kept : ℕ) (text : String) :
    (s.breakAt kept text).bytes = s.bytes.take kept := by
  simp [breakAt, bytes]

theorem breakAt_ending (s : Source) (kept : ℕ) (text : String) :
    (s.breakAt kept text).ending ≠ .live := by
  simp [breakAt]

end Source

/-- What was written so far, and the error a write meets once so many more bytes are through. -/
structure Sink where
  written : Bytes
  limit : Option (ℕ × String)

/-- `write_all`. -/
def Sink.writeAll (s : Sink) (bs : Bytes) : Except String Unit × Sink :=
  match s.limit with
  | none => (.ok (), { s with written := s.written ++ bs })
  | some (n, text) =>
    if bs.length ≤ n then (.ok (), ⟨s.written ++ bs, some (n - bs.length, text)⟩)
    else (.error text, ⟨s.written ++ bs.take n, some (0, text)⟩)

/-- Bytes in network order. -/
def toBeBytes (n : ℕ) : Bytes :=
  [UInt8.ofNat (n / 2 ^ 24), UInt8.ofNat (n / 2 ^ 16), UInt8.ofNat (n / 2 ^ 8), UInt8.ofNat n]

def fromBeBytes (bs : Bytes) : ℕ := bs.foldl (fun n b => 256 * n + b.toNat) 0

/-- A number of 32 bits is read as it was written. -/
theorem fromBeBytes_toBeBytes {n : ℕ} (h : n < 2 ^ 32) : fromBeBytes (toBeBytes n) = n := by
  simp only [fromBeBytes, toBeBytes, List.foldl_cons, List.foldl_nil, UInt8.toNat_ofNat']
  omega

end Stream
