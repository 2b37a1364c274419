import Mathlib.Data.Int.ModEq
import Mathlib.Data.Nat.Prime.Basic
import Crossgram.Lib.Hex
import Crossgram.Lib.Maps
import Crossgram.VoiceCrypto
/-!
# LoginSrp — the password check of two-step verification (packages/bridge/src/login-srp.ts)

The server keeps `v = g^x mod p` and two salts, and never the password.  The digests and the number functions of
`@fuman/utils` are parameters, and so is the modulus, of which the results need that it is prime and fits into 256 bytes.
`clientRequest` is the other side: SRP's formulas, over plain numbers.
-/
namespace Crossgram
namespace Srp

open Endian (bound big value)

structure Libraries where
  sha256 : List UInt8 → {bytes : List UInt8 // bytes.length = 32}
  /-- 100000 rounds of SHA-512 -/
  pbkdf2 : List UInt8 → List UInt8 → {bytes : List UInt8 // bytes.length = 64}
  toBytes : Nat → Nat → List UInt8
  fromBytes : List UInt8 → Nat
  modPowBinary : Nat → Nat → Nat → Nat
  toBytes_eq : ∀ {n k : Nat}, n < bound k → toBytes n k = big k n
  fromBytes_eq : ∀ bytes, fromBytes bytes = value bytes
  modPowBinary_eq : ∀ {m : Nat} (base exponent : Nat), 1 < m → modPowBinary base exponent m = base ^ exponent % m

/-- The prime of the voice handshake. -/
def SRP_PRIME : Nat := Voice.TELEGRAM_DH_PRIME

def SRP_G : Nat := 3

def SRP_G_BYTES : List UInt8 := List.replicate 255 0 ++ [3]

structure SrpVerifier where
  v : String
  salt1 : String
  salt2 : String

structure Long where
  low : Int32
  high : Int32
deriving DecidableEq

structure SrpChallenge where
  srpId : Long
  b : Nat
  B : Nat
  verifier : SrpVerifier

structure SrpCheckRequest where
  srpId : Long
  A : List UInt8
  M1 : List UInt8

/-- By auth key, each with when it expires. -/
abbrev SrpChallengeStore := List (String × SrpChallenge × Nat)

def CHALLENGE_TTL_MS : Nat := 5 * 60000

variable (L : Libraries) (p : Nat)

def SRP_P_BYTES : List UInt8 := big 256 p

def K : Nat := L.fromBytes (L.sha256 (SRP_P_BYTES p ++ SRP_G_BYTES)).val

def to256 (n : Nat) : List UInt8 := L.toBytes n 256

def SH (data salt : List UInt8) : List UInt8 := (L.sha256 (salt ++ data ++ salt)).val

def computePasswordHash (password : String) (salt1 salt2 : List UInt8) : Nat :=
  let ph1 := SH L (SH L password.toUTF8.data.toList salt1) salt2
  let stretched := (L.pbkdf2 ph1 salt1).val
  L.fromBytes (SH L stretched salt2)

/-- The salts are random. -/
def generateSrpVerifier (password : String) (salt1 salt2 : List UInt8) : SrpVerifier :=
  let x := computePasswordHash L password salt1 salt2
  let v := L.modPowBinary SRP_G x p
  { v := Hex.ofBytes (to256 L v), salt1 := Hex.ofBytes salt1, salt2 := Hex.ofBytes salt2 }

def SrpChallengeStore.prune (store : SrpChallengeStore) (now : Nat) : SrpChallengeStore :=
  store.filter (fun e => now < e.2.2)

/-- `secret` and `srpId` are random. -/
def SrpChallengeStore.begin (store : SrpChallengeStore) (now : Nat) (secret : List UInt8) (srpId : Long)
    (authKeyId : String) (verifier : SrpVerifier) : SrpChallenge × SrpChallengeStore :=
  let b := L.fromBytes secret
  let B := (K L p * L.fromBytes (Hex.toBytes verifier.v) + L.modPowBinary SRP_G b p) % p
  let challenge := { srpId := srpId, b := b, B := B, verifier := verifier }
  (challenge, Maps.set (store.prune now) authKeyId (challenge, now + CHALLENGE_TTL_MS))

/-- Whether the client's public value is refused unseen. -/
def Refused (A : Nat) : Prop := A ≤ 1 ∨ A ≥ p

instance (A : Nat) : Decidable (Refused p A) := inferInstanceAs (Decidable (A ≤ 1 ∨ A ≥ p))

/-- `S` -/
def serverSecret (challenge : SrpChallenge) (A : Nat) : Nat :=
  let u := L.fromBytes (L.sha256 (to256 L A ++ to256 L challenge.B)).val
  let v := L.fromBytes (Hex.toBytes challenge.verifier.v)
  L.modPowBinary (A * L.modPowBinary v u p % p) challenge.b p

def verifySrpChallenge (challenge : SrpChallenge) (request : SrpCheckRequest) : Bool :=
  let A := L.fromBytes request.A
  if request.srpId ≠ challenge.srpId then false
  else if Refused p A then false
  else
    let S := serverSecret L p challenge A
    let KSession := (L.sha256 (to256 L S)).val
    let expected := L.sha256 (List.zipWith (· ^^^ ·) (L.sha256 (SRP_P_BYTES p)).val (L.sha256 SRP_G_BYTES).val ++
      (L.sha256 (Hex.toBytes challenge.verifier.salt1)).val ++ (L.sha256 (Hex.toBytes challenge.verifier.salt2)).val ++
      to256 L A ++ to256 L challenge.B ++ KSession)
    decide (request.M1 = expected.val)

/-! ## The client -/

/-- What a client with the secret `a` answers to a challenge, of which it is shown the salts, `B` and the id. -/
def clientRequest (a : Nat) (password : String) (challenge : SrpChallenge) : SrpCheckRequest :=
  let H (bytes : List UInt8) : List UInt8 := (L.sha256 bytes).val
  let salt1 := Hex.toBytes challenge.verifier.salt1
  let salt2 := Hex.toBytes challenge.verifier.salt2
  let x := computePasswordHash L password salt1 salt2
  let k := value (H (big 256 p ++ big 256 3))
  let A := 3 ^ a % p
  let u := value (H (big 256 A ++ big 256 challenge.B))
  let S := (((challenge.B : Int) - k * 3 ^ x) ^ (a + u * x) % p).toNat
  { srpId := challenge.srpId
    A := big 256 A
    M1 := H (List.zipWith (· ^^^ ·) (H (big 256 p)) (H (big 256 3)) ++ H salt1 ++ H salt2 ++ big 256 A ++
      big 256 challenge.B ++ H (big 256 S)) }

/-! ## The identity -/

theorem SRP_PRIME_fits : SRP_PRIME ≠ 3 ∧ SRP_PRIME ≤ bound 256 := by decide +kernel

theorem SRP_G_BYTES_eq : SRP_G_BYTES = big 256 3 := by decide +kernel

/-- Without the verifier's part, `B` is the server's power of `g`. -/
theorem challenge_modEq (p k x b : Nat) :
    (((k * (3 ^ x % p) + 3 ^ b % p) % p : Nat) : Int) - k * 3 ^ x ≡ 3 ^ b [ZMOD p] := by
  have hnat : (k * (3 ^ x % p) + 3 ^ b % p) % p ≡ k * 3 ^ x + 3 ^ b [MOD p] :=
    (Nat.mod_modEq _ _).trans (((Nat.mod_modEq _ _).mul_left k).add (Nat.mod_modEq _ _))
  have hint := (Int.natCast_modEq_iff.2 hnat).sub_right (k * 3 ^ x)
  push_cast at hint ⊢
  rwa [add_sub_cancel_left] at hint

theorem server_modEq (p x a b u : Nat) :
    (3 ^ a % p * ((3 ^ x % p) ^ u % p) % p) ^ b ≡ (3 ^ b) ^ (a + u * x) [MOD p] := by
  have hv : (3 ^ x % p) ^ u % p ≡ (3 ^ x) ^ u [MOD p] := (Nat.mod_modEq _ _).trans ((Nat.mod_modEq _ _).pow u)
  have hbase : 3 ^ a % p * ((3 ^ x % p) ^ u % p) % p ≡ 3 ^ a * (3 ^ x) ^ u [MOD p] :=
    (Nat.mod_modEq _ _).trans ((Nat.mod_modEq _ _).mul hv)
  have hpow : (3 ^ a * (3 ^ x) ^ u) ^ b = (3 ^ b) ^ (a + u * x) := by
    rw [← pow_mul, ← pow_add, ← pow_mul, ← pow_mul, Nat.mul_comm x u, Nat.mul_comm b]
  rw [← hpow]
  exact hbase.pow b

/-- **Both sides reach one secret.** -/
theorem secret_eq (p k x a b u : Nat) :
    ((((k * (3 ^ x % p) + 3 ^ b % p) % p : Nat) : Int) - k * 3 ^ x) ^ (a + u * x) % p =
      ((3 ^ a % p * ((3 ^ x % p) ^ u % p) % p) ^ b % p : Nat) := by
  have hclient := (challenge_modEq p k x b).pow (a + u * x)
  have hserver := Int.natCast_modEq_iff.2 (server_modEq p x a b u)
  push_cast at hserver hclient ⊢
  exact hclient.trans hserver.symm

section
variable {L p}

/-- What the verifier stores is read back. -/
theorem fromBytes_verifier (hp : 1 < p) (hfits : p ≤ bound 256) (password : String) (salt1 salt2 : List UInt8) :
    L.fromBytes (Hex.toBytes (generateSrpVerifier L p password salt1 salt2).v) =
      3 ^ computePasswordHash L password salt1 salt2 % p := by
  have hlt : 3 ^ computePasswordHash L password salt1 salt2 % p < bound 256 :=
    Nat.lt_of_lt_of_le (Nat.mod_lt _ (Nat.zero_lt_of_lt hp)) hfits
  unfold generateSrpVerifier to256
  dsimp only
  rw [Hex.toBytes_ofBytes, L.modPowBinary_eq _ _ hp, SRP_G, L.toBytes_eq hlt, L.fromBytes_eq, Endian.value_big_of_lt hlt]

theorem serverSecret_ne_zero (hp : p.Prime) (h3 : p ≠ 3) (challenge : SrpChallenge) {x A : Nat}
    (hv : L.fromBytes (Hex.toBytes challenge.verifier.v) = 3 ^ x % p) (hA : ¬ Refused p A) :
    serverSecret L p challenge A % p ≠ 0 := by
  unfold Refused at hA
  unfold serverSecret
  dsimp only
  rw [hv, L.modPowBinary_eq _ _ hp.one_lt, L.modPowBinary_eq _ _ hp.one_lt, Nat.mod_mod]
  intro hzero
  have hdvd := hp.dvd_of_dvd_pow (Nat.dvd_of_mod_eq_zero hzero)
  rw [Nat.dvd_mod_iff (Nat.dvd_refl p)] at hdvd
  -- one of the factors would be a multiple of the modulus
  rcases hp.dvd_mul.1 hdvd with hdvd | hdvd
  · exact absurd (Nat.le_of_dvd (by omega) hdvd) (by omega)
  · rw [Nat.dvd_mod_iff (Nat.dvd_refl p)] at hdvd
    have hpow := (Nat.dvd_mod_iff (Nat.dvd_refl p)).1 (hp.dvd_of_dvd_pow hdvd)
    exact h3 ((Nat.prime_dvd_prime_iff_eq hp Nat.prime_three).1 (hp.dvd_of_dvd_pow hpow))

end

/-- Digests by length, and the numbers of `@fuman/utils` as they are. -/
def sampleLibraries : Libraries where
  sha256 bytes := ⟨big 32 bytes.length, Endian.length_big _ _⟩
  pbkdf2 password salt := ⟨big 64 (password.length + salt.length), Endian.length_big _ _⟩
  toBytes n k := big k n
  fromBytes := value
  modPowBinary base exponent m := base ^ exponent % m
  toBytes_eq _ := rfl
  fromBytes_eq _ := rfl
  modPowBinary_eq _ _ _ := rfl

def sampleChallenge : SrpChallenge :=
  (SrpChallengeStore.begin sampleLibraries 7 [] 0 [5] ⟨1, 2⟩ "k" (generateSrpVerifier sampleLibraries 7 "pw" [1] [2])).1

end Srp
end Crossgram
