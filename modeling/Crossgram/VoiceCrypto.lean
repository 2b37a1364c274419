import Crossgram.Lib.Powers
import Crossgram.VoiceIpc
/-!
# VoiceCrypto — the call handshake's primitives (packages/voice-worker/src/crypto.rs)

The public value of an exponent is a power of 3 modulo Telegram's prime; a shared key is a power of the other party's public
value.  Both are written as 256 bytes.  The two hash functions are parameters.
-/
namespace Crossgram
namespace Voice

open VoiceIpc (FixedBytes DH_PUBLIC_BYTES GA_HASH_BYTES PCM_CAPABILITY_BYTES)

/-- `Sha256::digest` and `Sha1::digest` -/
structure Hashes where
  sha256 : List UInt8 → FixedBytes 32
  sha1 : List UInt8 → FixedBytes 20

inductive CryptoError
  | invalidPublicValue
  | randomnessUnavailable
  | hashMismatch

def TELEGRAM_DH_PRIME : Nat := 0xC71CAEB9C6B1C9048E6C522F70F13F73980D40238E3E21C14934D037563D930F48198A0AA7C14058229493D22530F4DBFA336F6E0AC925139543AED44CCE7C3720FD51F69458705AC68CD4FE6B6B13ABDC9746512969328454F18FAF8C595F642477FE96BB2A941D5BCD1D4AC8CC49880708FA9B378E3C4F3A9060BEE67CF9A4A4A695811051907E162753B56B0F6B410DBA74D8A84B2A14B3144E0EF1284754FD17ED950D5965B4B9DD46582DB1178D169C6BC465B0D6FF9CA3928FEF5B9AE4E418FC15E83EBEA0F87FA9FF5EED70050DED2849F47BF959D956850CE929851F0D8115F635B105EE2E4E15D04B2454BF6F4FADF034B10403119CD8E3B92FCC5B

def DH_MARGIN : Nat := 1 <<< 1984

structure DhPrivate where
  bytes : FixedBytes DH_PUBLIC_BYTES
  nonzero : bytes.val.all (fun byte => byte == 0) = false
deriving DecidableEq

/-- `generate`, with what `/dev/urandom` has. -/
def DhPrivate.generate (random : Option (FixedBytes DH_PUBLIC_BYTES)) : Except CryptoError DhPrivate :=
  match random with
  | none       => .error .randomnessUnavailable
  | some bytes =>
    if h : bytes.val.all (fun byte => byte == 0) = false then .ok ⟨bytes, h⟩ else .error .randomnessUnavailable

def DhPrivate.exponent (secret : DhPrivate) : Nat := Endian.value secret.bytes.val

def publicBytes (value : Nat) : FixedBytes DH_PUBLIC_BYTES := ⟨Endian.big DH_PUBLIC_BYTES value, Endian.length_big _ _⟩

/-- `pow_bounded_exp` over the fixed prime -/
def powBoundedExp (base exponent : Nat) : Nat := Powers.pow TELEGRAM_DH_PRIME base 2048 exponent

/-- A value that an exchange may use. -/
def InRange (value : Nat) : Prop := DH_MARGIN < value ∧ value < TELEGRAM_DH_PRIME - DH_MARGIN

instance (value : Nat) : Decidable (InRange value) :=
  inferInstanceAs (Decidable (DH_MARGIN < value ∧ value < TELEGRAM_DH_PRIME - DH_MARGIN))

def validatePublicValue (value : FixedBytes DH_PUBLIC_BYTES) : Except CryptoError Nat :=
  let value := Endian.value value.val
  let upperBound := TELEGRAM_DH_PRIME - DH_MARGIN
  if value ≤ DH_MARGIN ∨ value ≥ upperBound then .error .invalidPublicValue else .ok value

def publicValue (secret : DhPrivate) : FixedBytes DH_PUBLIC_BYTES := publicBytes (powBoundedExp 3 secret.exponent)

def deriveSharedKey (secret : DhPrivate) (peerPublic : FixedBytes DH_PUBLIC_BYTES) :
    Except CryptoError (FixedBytes DH_PUBLIC_BYTES) := do
  let peerPublic ← validatePublicValue peerPublic
  pure (publicBytes (powBoundedExp peerPublic secret.exponent))

namespace Hashes

variable (hashes : Hashes)

def gaHash (ga : FixedBytes DH_PUBLIC_BYTES) : FixedBytes GA_HASH_BYTES := hashes.sha256 ga.val

def verifyGaHash (ga : FixedBytes DH_PUBLIC_BYTES) (expected : FixedBytes GA_HASH_BYTES) : Except CryptoError Unit :=
  if hashes.gaHash ga = expected then .ok () else .error .hashMismatch

/-- The last eight bytes of the digest, the lowest first. -/
def keyFingerprint (authKey : FixedBytes DH_PUBLIC_BYTES) : Int64 :=
  (UInt64.ofNat (Endian.value ((hashes.sha1 authKey.val).val.drop 12).reverse)).toInt64

end Hashes

/-! ## The exchange -/

theorem inRange_iff {value : FixedBytes DH_PUBLIC_BYTES} {v : Nat} :
    validatePublicValue value = .ok v ↔ v = Endian.value value.val ∧ InRange v := by
  unfold validatePublicValue InRange
  dsimp only
  constructor
  · intro h
    split at h
    · cases h
    · rename_i hin
      cases h
      omega
  · rintro ⟨rfl, hlow, hhigh⟩
    rw [if_neg (by omega)]

theorem deriveSharedKey_eq_ok {secret : DhPrivate} {peerPublic key : FixedBytes DH_PUBLIC_BYTES} :
    deriveSharedKey secret peerPublic = .ok key ↔ InRange (Endian.value peerPublic.val) ∧
      key = publicBytes (powBoundedExp (Endian.value peerPublic.val) secret.exponent) := by
  unfold deriveSharedKey
  rw [Results.bind_ok]
  constructor
  · rintro ⟨v, hv, hkey⟩
    obtain ⟨rfl, hin⟩ := inRange_iff.1 hv
    exact ⟨hin, (Except.ok.inj hkey).symm⟩
  · rintro ⟨hin, rfl⟩
    exact ⟨_, inRange_iff.2 ⟨rfl, hin⟩, rfl⟩

theorem exponent_lt (secret : DhPrivate) : secret.exponent < Endian.bound 256 := by
  have h := Endian.value_lt secret.bytes.val
  rw [secret.bytes.property] at h
  exact h

theorem powBoundedExp_lt (base exponent : Nat) : powBoundedExp base exponent < Endian.bound 256 :=
  Nat.lt_trans (Powers.pow_lt base (by decide +kernel) 2048 exponent) (by decide +kernel)

theorem value_publicValue (secret : DhPrivate) :
    Endian.value (publicValue secret).val = powBoundedExp 3 secret.exponent :=
  Endian.value_big_of_lt (powBoundedExp_lt 3 secret.exponent)

theorem exponent_lt_bits (secret : DhPrivate) : secret.exponent < Powers.bits 2048 := by
  have hbits : Endian.bound 256 = Powers.bits 2048 := by decide +kernel
  rw [← hbits]
  exact exponent_lt secret

/-- **The key of an exchange** is the power of 3 to both exponents. -/
theorem sharedKey_eq (mine theirs : DhPrivate) : powBoundedExp (Endian.value (publicValue theirs).val) mine.exponent =
    Nat.pow 3 (theirs.exponent * mine.exponent) % TELEGRAM_DH_PRIME := by
  rw [value_publicValue]
  exact Powers.pow_pow _ _ _ _ _ (exponent_lt_bits theirs) (exponent_lt_bits mine)

/-- **Both parties derive the same key.** -/
theorem sharedKey_comm (mine theirs : DhPrivate) :
    powBoundedExp (Endian.value (publicValue theirs).val) mine.exponent =
      powBoundedExp (Endian.value (publicValue mine).val) theirs.exponent := by
  rw [sharedKey_eq, sharedKey_eq, Nat.mul_comm]

end Voice
end Crossgram
