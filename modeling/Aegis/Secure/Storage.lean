import Aegis.Core.Base
import Aegis.Ipc.Serde
import Aegis.Lib.Tape

/-! Key derivation and sealed blobs over a source of random octets: what opens, and what is drawn
from the source. -/
namespace Aegis.Secure
open Text Tape Json

/-- A symmetric key. -/
structure SecretKey where
  bytes : Bytes
  length_bytes : bytes.length = 32
  deriving DecidableEq

/-- The cost parameters of Argon2id, and the salt. -/
structure KdfParams where
  mCost : BitVec 32
  tCost : BitVec 32
  pCost : BitVec 32
  salt : Bytes
  deriving DecidableEq

def KdfParams.interactive (salt : Bytes) : KdfParams := ⟨65536, 3, 1, salt⟩

inductive AeadAlg where
  | xChaCha20Poly1305
  deriving DecidableEq

/-- A ciphertext at rest, with its tag; the parameters are there if its key came from a password. -/
structure SealedBlob where
  alg : AeadAlg
  nonce : Bytes
  ciphertext : Bytes
  kdf : Option KdfParams
  deriving DecidableEq

/-! ### The JSON of a blob -/

instance : Wire UInt8 := .unsigned (2 ^ 8) UInt8.ofNat UInt8.toNat UInt8.toNat_lt
  fun _ => UInt8.ofNat_toNat

def KdfParams.record : Record KdfParams :=
  .of (fun k => (k.mCost, k.tCost, k.pCost, k.salt, ()))
    (fun (mCost, tCost, pCost, salt, _) => ⟨mCost, tCost, pCost, salt⟩) (fun _ => rfl)
    (.required "m_cost" <| .required "t_cost" <| .required "p_cost" <| .required "salt" .nil)

instance : Wire KdfParams := KdfParams.record.wire (by decide)

instance : Wire.NonNull KdfParams := ⟨fun _ => nofun⟩

instance : Wire AeadAlg :=
  .variants [("x-cha-cha20-poly1305", .xChaCha20Poly1305)] (by rintro ⟨⟩; rfl)

def SealedBlob.record : Record SealedBlob :=
  .of (fun b => (b.alg, b.nonce, b.ciphertext, b.kdf, ()))
    (fun (alg, nonce, ciphertext, kdf, _) => ⟨alg, nonce, ciphertext, kdf⟩) (fun _ => rfl)
    (.required "alg" <| .required "nonce" <| .required "ciphertext" <| .defaulted "kdf" none .nil)

instance : Wire SealedBlob := SealedBlob.record.wire (by decide)

/-! ### The store -/

def keyLen : ℕ := 32
def nonceLen : ℕ := 24
def saltLen : ℕ := 16

/-- A source that fills what it is given, and is another afterwards. -/
structure RandomSource (ρ : Type) where
  fill : ℕ → ρ → Bytes × ρ
  length_fill : ∀ n r, (fill n r).1.length = n

/-- A tape of octets, read from a position on. -/
def RandomSource.tape (octets : ℕ → UInt8) : RandomSource ℕ where
  fill n pos := (window octets pos n, pos + n)
  length_fill n pos := length_window octets pos n

/-- What the crates for Argon2id and XChaCha20-Poly1305 compute. The errors of the first are told as
texts; those of the second say nothing. -/
structure Crypto where
  params : BitVec 32 → BitVec 32 → BitVec 32 → Except String Unit
  hash : KdfParams → Bytes → Except String SecretKey
  encrypt : SecretKey → Bytes → Bytes → Option Bytes
  decrypt : SecretKey → Bytes → Bytes → Option Bytes

/-- A ciphertext is decrypted if it is the encryption of some plaintext, and to that plaintext. -/
def Crypto.Authentic (c : Crypto) : Prop :=
  ∀ key nonce plaintext ciphertext, nonce.length = nonceLen →
    (c.decrypt key nonce ciphertext = some plaintext ↔
      c.encrypt key nonce plaintext = some ciphertext)

structure SecureStorage (ρ : Type) where
  rng : RandomSource ρ
  crypto : Crypto

namespace SecureStorage

variable {ρ : Type} (s : SecureStorage ρ)

def randomKey (r : ρ) : Result SecretKey × ρ :=
  (.ok ⟨(s.rng.fill keyLen r).1, s.rng.length_fill keyLen r⟩, (s.rng.fill keyLen r).2)

def generateKey (r : ρ) : Result SecretKey × ρ := s.randomKey r

def generateEphemeralKey (r : ρ) : Result SecretKey × ρ := s.randomKey r

def newKdfParams (r : ρ) : Result KdfParams × ρ :=
  let (salt, r) := s.rng.fill saltLen r
  (.ok (.interactive salt), r)

def deriveKey (password : Bytes) (params : KdfParams) : Result SecretKey :=
  match s.crypto.params params.mCost params.tCost params.pCost with
  | .error e => .error (.crypto ("invalid KDF parameters: " ++ e))
  | .ok () =>
    match s.crypto.hash params password with
    | .error e => .error (.crypto ("key derivation failed: " ++ e))
    | .ok key => .ok key

/-- `seal`, under a nonce that is drawn. -/
def sealBlob (key : SecretKey) (plaintext : Bytes) (r : ρ) : Result SealedBlob × ρ :=
  let (nonce, r) := s.rng.fill nonceLen r
  match s.crypto.encrypt key nonce plaintext with
  | none => (.error (.crypto "sealing failed"), r)
  | some ciphertext => (.ok ⟨.xChaCha20Poly1305, nonce, ciphertext, none⟩, r)

/-- `open`: any failure to decrypt is the same error. -/
def openBlob (key : SecretKey) (blob : SealedBlob) : Result Bytes :=
  match blob.alg with
  | .xChaCha20Poly1305 =>
    if blob.nonce.length ≠ nonceLen then .error (.crypto "sealed blob has malformed nonce")
    else match s.crypto.decrypt key blob.nonce blob.ciphertext with
      | none => .error (.crypto "open failed: authentication error")
      | some plaintext => .ok plaintext

def sealWithPassword (password : Bytes) (params : KdfParams) (plaintext : Bytes) (r : ρ) :
    Result SealedBlob × ρ :=
  match s.deriveKey password params with
  | .error e => (.error e, r)
  | .ok key =>
    match s.sealBlob key plaintext r with
    | (.error e, r) => (.error e, r)
    | (.ok blob, r) => (.ok { blob with kdf := some params }, r)

def openWithPassword (password : Bytes) (blob : SealedBlob) : Result Bytes :=
  match blob.kdf with
  | none => .error (.crypto "sealed blob carries no KDF parameters")
  | some params =>
    match s.deriveKey password params with
    | .error e => .error e
    | .ok key => s.openBlob key blob

/-! ### What opens -/

variable {s} {key : SecretKey} {password plaintext : Bytes} {blob : SealedBlob}
  {params : KdfParams}

/-- The same functions with another source. -/
def reading (s : SecureStorage ρ) (octets : ℕ → UInt8) : SecureStorage ℕ := ⟨.tape octets, s.crypto⟩

theorem deriveKey_reading (octets : ℕ → UInt8) :
    (s.reading octets).deriveKey password params = s.deriveKey password params := rfl

theorem openBlob_eq_ok : s.openBlob key blob = .ok plaintext ↔ blob.nonce.length = nonceLen ∧
    s.crypto.decrypt key blob.nonce blob.ciphertext = some plaintext := by
  obtain ⟨⟨⟩, nonce, ciphertext, kdf⟩ := blob
  unfold openBlob
  by_cases hlength : nonce.length = nonceLen
  · simp only [hlength, ne_eq, not_true_eq_false, if_false, true_and]
    cases s.crypto.decrypt key nonce ciphertext <;> simp
  · simp [hlength]

theorem sealBlob_eq_ok {r : ρ} : (s.sealBlob key plaintext r).1 = .ok blob ↔
    blob.nonce = (s.rng.fill nonceLen r).1 ∧ blob.kdf = none ∧
      s.crypto.encrypt key blob.nonce plaintext = some blob.ciphertext := by
  obtain ⟨⟨⟩, nonce, ciphertext, kdf⟩ := blob
  unfold sealBlob
  simp only
  constructor
  · intro h
    split at h
    · cases h
    · rename_i found hfound
      cases h
      exact ⟨rfl, rfl, hfound⟩
  · rintro ⟨rfl, rfl, hcipher⟩
    simp only [hcipher]

/-- With a key, a blob opens to what it was sealed from, whatever parameters it carries. -/
theorem open_iff_sealed (hauth : s.crypto.Authentic) : s.openBlob key blob = .ok plaintext ↔
    ∃ octets, ((s.reading octets).sealBlob key plaintext 0).1 = .ok { blob with kdf := none } := by
  rw [openBlob_eq_ok]
  simp only [sealBlob_eq_ok, true_and]
  constructor
  · rintro ⟨hlength, hopen⟩
    obtain ⟨octets, hoctets⟩ := exists_window blob.nonce
    rw [hlength] at hoctets
    exact ⟨octets, hoctets.symm, (hauth _ _ _ _ hlength).mp hopen⟩
  · rintro ⟨octets, hnonce, hseal⟩
    have hlength : blob.nonce.length = nonceLen := by
      rw [hnonce]
      exact length_window octets 0 nonceLen
    exact ⟨hlength, (hauth _ _ _ _ hlength).mpr hseal⟩

theorem openWithPassword_eq_ok : s.openWithPassword password blob = .ok plaintext ↔
    ∃ params key, blob.kdf = some params ∧ s.deriveKey password params = .ok key ∧
      s.openBlob key blob = .ok plaintext := by
  unfold openWithPassword
  cases blob.kdf with
  | none => simp
  | some params =>
    simp only [Option.some.injEq, exists_and_left, exists_eq_left']
    cases s.deriveKey password params with
    | error e => simp
    | ok key => simp

theorem sealWithPassword_eq_ok {r : ρ} :
    (s.sealWithPassword password params plaintext r).1 = .ok blob ↔
      ∃ key, blob.kdf = some params ∧ s.deriveKey password params = .ok key ∧
        (s.sealBlob key plaintext r).1 = .ok { blob with kdf := none } := by
  unfold sealWithPassword
  cases hkey : s.deriveKey password params with
  | error e => simp
  | ok key =>
    rcases hseal : s.sealBlob key plaintext r with ⟨e | sealed, r'⟩
    · simp [hseal]
    · have hkdf : sealed.kdf = none := (sealBlob_eq_ok.mp (by rw [hseal])).2.1
      obtain ⟨alg, nonce, ciphertext, kdf⟩ := sealed
      obtain ⟨alg', nonce', ciphertext', kdf'⟩ := blob
      obtain rfl : kdf = none := hkdf
      simp only [Except.ok.injEq, SealedBlob.mk.injEq, and_true, exists_and_left, exists_eq_left',
        hseal]
      grind

/-- A key, a nonce and a plaintext with their ciphertext. -/
def knownKey : SecretKey where
  bytes := [59, 250, 121, 106, 134, 38, 11, 115, 69, 126, 18, 144, 181, 22, 149, 147, 26, 23, 226,
    102, 246, 1, 208, 251, 69, 86, 62, 40, 47, 182, 134, 91]
  length_bytes := rfl

def knownParams : KdfParams :=
  ⟨8, 1, 1, [0, 1, 2, 3, 4, 5, 6, 7, 8, 9, 10, 11, 12, 13, 14, 15]⟩

def knownBlob : SealedBlob where
  alg := .xChaCha20Poly1305
  nonce := [64, 65, 66, 67, 68, 69, 70, 71, 72, 73, 74, 75, 76, 77, 78, 79, 80, 81, 82, 83, 84, 85,
    86, 87]
  ciphertext := [122, 83, 173, 10, 202, 112, 135, 239, 129, 24, 27, 32, 31, 199, 162, 43, 106, 50,
    208, 18, 152]
  kdf := some knownParams

/-- The functions at these values; elsewhere they fail. -/
def known : Crypto where
  params _ _ _ := .ok ()
  hash params password :=
    if params = knownParams ∧ password = utf8 "correct horse".toList then .ok knownKey
    else .error "salt is too short"
  encrypt key nonce plaintext :=
    if key = knownKey ∧ nonce = knownBlob.nonce ∧ plaintext = utf8 "aegis".toList then
      some knownBlob.ciphertext
    else none
  decrypt key nonce ciphertext :=
    if key = knownKey ∧ nonce = knownBlob.nonce ∧ ciphertext = knownBlob.ciphertext then
      some (utf8 "aegis".toList)
    else none

theorem authentic_known : known.Authentic := by
  intro key nonce plaintext ciphertext _
  simp only [known]
  split_ifs <;> grind

inductive SecureOp where
  | generateKey
  | generateEphemeralKey
  | newKdfParams
  | deriveKey (password : Bytes) (params : KdfParams)
  | sealBlob (key : SecretKey) (plaintext : Bytes)
  | openBlob (key : SecretKey) (blob : SealedBlob)
  | sealWithPassword (password : Bytes) (params : KdfParams) (plaintext : Bytes)
  | openWithPassword (password : Bytes) (blob : SealedBlob)

inductive SecureReply where
  | key (key : SecretKey)
  | params (params : KdfParams)
  | blob (blob : SealedBlob)
  | plaintext (plaintext : Bytes)

def perform (s : SecureStorage ρ) (r : ρ) : SecureOp → Result SecureReply × ρ
  | .generateKey => (s.generateKey r).map (·.map .key) id
  | .generateEphemeralKey => (s.generateEphemeralKey r).map (·.map .key) id
  | .newKdfParams => (s.newKdfParams r).map (·.map .params) id
  | .deriveKey password params => ((s.deriveKey password params).map .key, r)
  | .sealBlob key plaintext => (s.sealBlob key plaintext r).map (·.map .blob) id
  | .openBlob key blob => ((s.openBlob key blob).map .plaintext, r)
  | .sealWithPassword password params plaintext =>
    (s.sealWithPassword password params plaintext r).map (·.map .blob) id
  | .openWithPassword password blob => ((s.openWithPassword password blob).map .plaintext, r)

/-- What an operation returns that was drawn for it: a key, a salt or a nonce. -/
def drawn : SecureOp → Result SecureReply → Option Bytes
  | .generateKey, .ok (.key key) => some key.bytes
  | .generateEphemeralKey, .ok (.key key) => some key.bytes
  | .newKdfParams, .ok (.params params) => some params.salt
  | .sealBlob _ _, .ok (.blob blob) => some blob.nonce
  | .sealWithPassword _ _ _, .ok (.blob blob) => some blob.nonce
  | _, _ => none

/-- The keys, salts and nonces that operations performed in turn return. -/
def drawnAll (s : SecureStorage ρ) : ρ → List SecureOp → List Bytes
  | _, [] => []
  | r, op :: ops => (drawn op (s.perform r op).1).toList ++ s.drawnAll (s.perform r op).2 ops

/-- Sealing draws a nonce, and returns it with the blob or not at all. -/
theorem sealBlob_cases (s : SecureStorage ρ) (key : SecretKey) (plaintext : Bytes) (r : ρ) :
    (s.sealBlob key plaintext r).2 = (s.rng.fill nonceLen r).2 ∧
      ((∃ e, (s.sealBlob key plaintext r).1 = .error e) ∨
        ∃ blob, (s.sealBlob key plaintext r).1 = .ok blob ∧
          blob.nonce = (s.rng.fill nonceLen r).1) := by
  unfold sealBlob
  simp only
  cases s.crypto.encrypt key (s.rng.fill nonceLen r).1 plaintext with
  | none => exact ⟨rfl, .inl ⟨_, rfl⟩⟩
  | some ciphertext => exact ⟨rfl, .inr ⟨_, rfl, rfl⟩⟩

section Tape

variable (octets : ℕ → UInt8) (c : Crypto)

/-- An operation reads on from where the tape is, and returns what it has read. -/
theorem pieces_perform (op : SecureOp) (pos : ℕ) :
    Pieces octets pos (drawn op (perform ⟨.tape octets, c⟩ pos op).1).toList
      (perform ⟨.tape octets, c⟩ pos op).2 := by
  have hseal := fun key plaintext =>
    sealBlob_cases ⟨.tape octets, c⟩ key plaintext pos
  cases op with
  | generateKey => exact .take keyLen (.done _)
  | generateEphemeralKey => exact .take keyLen (.done _)
  | newKdfParams => exact .take saltLen (.done _)
  | deriveKey password params => exact .done pos
  | openBlob key blob => exact .done pos
  | openWithPassword password blob => exact .done pos
  | sealBlob key plaintext =>
    obtain ⟨hpos, ⟨e, he⟩ | ⟨blob, hblob, hnonce⟩⟩ := hseal key plaintext
    · simp only [perform, Prod.map_fst, Prod.map_snd, he, hpos]
      exact .pass nonceLen (.done _)
    · simp only [perform, Prod.map_fst, Prod.map_snd, hblob, hpos]
      show Pieces octets pos [blob.nonce] _
      rw [hnonce]
      exact .take nonceLen (.done _)
  | sealWithPassword password params plaintext =>
    simp only [perform, sealWithPassword, Prod.map_fst, Prod.map_snd]
    cases deriveKey ⟨.tape octets, c⟩ password params with
    | error e => exact .done pos
    | ok key =>
      obtain ⟨hpos, ⟨e, he⟩ | ⟨blob, hblob, hnonce⟩⟩ := hseal key plaintext
      · simp only [show sealBlob ⟨.tape octets, c⟩ key plaintext pos = (.error e, pos + nonceLen)
          from Prod.ext he hpos]
        exact .pass nonceLen (.done _)
      · simp only [show sealBlob ⟨.tape octets, c⟩ key plaintext pos = (.ok blob, pos + nonceLen)
          from Prod.ext hblob hpos]
        show Pieces octets pos [blob.nonce] _
        rw [hnonce]
        exact .take nonceLen (.done _)

theorem pieces_drawnAll (ops : List SecureOp) (pos : ℕ) :
    ∃ stop, Pieces octets pos (drawnAll ⟨.tape octets, c⟩ pos ops) stop := by
  induction ops generalizing pos with
  | nil => exact ⟨pos, .done pos⟩
  | cons op ops ih =>
    obtain ⟨stop, hstop⟩ := ih (perform ⟨.tape octets, c⟩ pos op).2
    exact ⟨stop, (pieces_perform octets c op pos).append hstop⟩

/-- In every run the keys, salts and nonces that are returned lie apart on the tape: two of them are
the same only where the source itself repeats. -/
theorem drawn_apart (ops : List SecureOp) (pos : ℕ) :
    (drawnAll ⟨.tape octets, c⟩ pos ops).Pairwise fun first second => ∃ p q, pos ≤ p ∧
      p + first.length ≤ q ∧ first = window octets p first.length ∧
        second = window octets q second.length := by
  obtain ⟨stop, hpieces⟩ := pieces_drawnAll octets c ops pos
  exact hpieces.pairwise_apart

end Tape

end SecureStorage

end Aegis.Secure
