import Crossgram.Lib.Bitwise32
import Crossgram.Lib.Sha1
/-!
# MediaHashes — what an upload declares about its bytes (packages/platform-crossgram/src/client.ts, sha1-state.ts)

`Sha1CompressionState` is fed the stream as it comes, over a buffer of one block, and gives its state away unpadded.
`hashMediaSource` cuts the stream again at every MiB to take that state there.  The digests are those of node:crypto.
-/
namespace Crossgram
namespace MediaHashing

open List Bitwise32

def QQ_VIDEO_SHA1_CHECKPOINT_BYTES : Nat := 1024 * 1024
def FIRST_10M_LIMIT : Nat := 10 * 1024 * 1024

/-! ## The compression -/

/-- The numbers `a` to `e`. -/
structure Variables where
  a : Int
  b : Int
  c : Int
  d : Int
  e : Int

/-- The elements of `_state`. -/
structure Words where
  h0 : UInt32
  h1 : UInt32
  h2 : UInt32
  h3 : UInt32
  h4 : UInt32

def Variables.chain (v : Variables) : Sha1.Chain := ⟨bits v.a, bits v.b, bits v.c, bits v.d, bits v.e⟩

def Words.chain (h : Words) : Sha1.Chain := ⟨h.h0.toBitVec, h.h1.toBitVec, h.h2.toBitVec, h.h3.toBitVec, h.h4.toBitVec⟩

def readUInt32BE (input : List UInt8) (offset : Nat) : Int := Endian.value ((input.drop offset).take 4)

/-- The words from `words.length` on: each is stored once, behind those it is made of. -/
def fillWords : Nat → List UInt32 → List UInt32
  | 0,     words => words
  | n + 1, words =>
    let index := words.length
    let value := bitXor (bitXor (bitXor (load (words.getD (index - 3) 0)) (load (words.getD (index - 8) 0)))
      (load (words.getD (index - 14) 0))) (load (words.getD (index - 16) 0))
    fillWords n (words ++ [store (bitOr (shiftLeft value 1) (shiftRight value 31))])

/-- `_words` of a block. -/
def blockWords (input : List UInt8) (offset : Nat) : List UInt32 :=
  fillWords 64 ((List.range 16).map (fun index => store (readUInt32BE input (offset + index * 4))))

def round (words : List UInt32) (v : Variables) (index : Nat) : Variables :=
  let f :=
    if index < 20 then bitOr (bitAnd v.b v.c) (bitAnd (bitNot v.b) v.d)
    else if index < 40 then bitXor (bitXor v.b v.c) v.d
    else if index < 60 then bitOr (bitOr (bitAnd v.b v.c) (bitAnd v.b v.d)) (bitAnd v.c v.d)
    else bitXor (bitXor v.b v.c) v.d
  let k := if index < 20 then 0x5a827999 else if index < 40 then 0x6ed9eba1 else if index < 60 then 0x8f1bbcdc else 0xca62c1d6
  let next := uint32 (bitOr (shiftLeft v.a 5) (shiftRight v.a 27) + f + v.e + k + load (words.getD index 0))
  ⟨next, v.a, uint32 (bitOr (shiftLeft v.b 30) (shiftRight v.b 2)), v.c, v.d⟩

/-- `_compress`. -/
def compress (state : Words) (input : List UInt8) (offset : Nat) : Words :=
  let v := (List.range 80).foldl (round (blockWords input offset))
    ⟨load state.h0, load state.h1, load state.h2, load state.h3, load state.h4⟩
  ⟨store (load state.h0 + v.a), store (load state.h1 + v.b), store (load state.h2 + v.c), store (load state.h3 + v.d),
    store (load state.h4 + v.e)⟩

theorem bits_getD (words : List UInt32) (index : Nat) :
    bits (load (words.getD index 0)) = (words.map UInt32.toBitVec).getD index 0 := by
  rw [bits_load]
  unfold List.getD
  rw [getElem?_map]
  cases words[index]? <;> rfl

theorem fillWords_eq (block : List UInt8) : ∀ (n : Nat) (words : List UInt32), 16 ≤ words.length →
    words.map UInt32.toBitVec = Sha1.schedule block words.length →
    (fillWords n words).map UInt32.toBitVec = Sha1.schedule block (words.length + n)
  | 0,     words, _,      h => h
  | n + 1, words, hinput, h => by
    unfold fillWords
    dsimp only
    have hnext : ∀ word : UInt32, word.toBitVec = Sha1.nextWord block (Sha1.schedule block words.length) →
        (words ++ [word]).map UInt32.toBitVec = Sha1.schedule block (words.length + 1) := by
      intro word hword
      rw [map_append, map_singleton, h, hword]
      rfl
    rw [fillWords_eq block n _ (by rw [length_append]; omega), length_append, length_singleton,
      Nat.add_assoc, Nat.add_comm 1 n]
    rw [length_append, length_singleton]
    apply hnext
    unfold Sha1.nextWord
    dsimp only
    rw [Sha1.length_schedule, if_neg (by omega), ← h, toBitVec_store, bits_rotate _ (by omega), bits_bitXor, bits_bitXor, bits_bitXor,
      bits_getD, bits_getD, bits_getD, bits_getD]

/-- **The words of a block are its schedule.** -/
theorem blockWords_eq (input : List UInt8) (offset : Nat) :
    (blockWords input offset).map UInt32.toBitVec = Sha1.schedule ((input.drop offset).take 64) 80 := by
  unfold blockWords
  rw [fillWords_eq ((input.drop offset).take 64) 64 _ (by simp)]
  · rw [length_map, length_range]
  · rw [length_map, length_range, Sha1.schedule_of_le _ (Nat.le_refl 16), map_map]
    apply map_congr_left
    intro index hindex
    have hindex := mem_range.1 hindex
    show bits (readUInt32BE input (offset + index * 4)) = _
    unfold readUInt32BE Sha1.word bits
    rw [BitVec.ofInt_natCast, drop_take, take_take, drop_drop, Nat.min_eq_left (by omega)]

theorem round_chain (words : List UInt32) (v : Variables) (index : Nat) :
    (round words v index).chain = Sha1.round (words.map UInt32.toBitVec) v.chain index := by
  have hf : ∀ b c d : Int,
      bits (if index < 20 then bitOr (bitAnd b c) (bitAnd (bitNot b) d) else if index < 40 then bitXor (bitXor b c) d
        else if index < 60 then bitOr (bitOr (bitAnd b c) (bitAnd b d)) (bitAnd c d) else bitXor (bitXor b c) d) =
      Sha1.f index (bits b) (bits c) (bits d) := by
    intro b c d
    unfold Sha1.f
    split
    · rw [Sha1.ch_eq_or, bits_bitOr, bits_bitAnd, bits_bitAnd, bits_bitNot]
    split
    · rw [Sha1.parity, bits_bitXor, bits_bitXor]
    split
    · rw [Sha1.maj_eq_or, bits_bitOr, bits_bitOr, bits_bitAnd, bits_bitAnd, bits_bitAnd]
    · rw [Sha1.parity, bits_bitXor, bits_bitXor]
  have hk : bits (if index < 20 then 0x5a827999 else if index < 40 then 0x6ed9eba1 else if index < 60 then 0x8f1bbcdc
      else 0xca62c1d6) = Sha1.k index := by
    unfold Sha1.k
    split
    · rfl
    split
    · rfl
    split <;> rfl
  unfold round Sha1.round Variables.chain
  dsimp only
  rw [bits_uint32, bits_uint32, bits_add, bits_add, bits_add, bits_add, bits_rotate _ (by omega), bits_rotate _ (by omega),
    hf, hk, bits_getD]

/-- **`_compress` is the compression of the block at the offset.** -/
theorem compress_chain (state : Words) (input : List UInt8) (offset : Nat) :
    (compress state input offset).chain = Sha1.compress state.chain ((input.drop offset).take 64) := by
  have hrounds : ∀ (indices : List Nat) (v : Variables),
      (indices.foldl (round (blockWords input offset)) v).chain =
        indices.foldl (Sha1.round (Sha1.schedule ((input.drop offset).take 64) 80)) v.chain := by
    intro indices
    induction indices with
    | nil => exact fun v => rfl
    | cons index indices ih =>
      intro v
      rw [foldl_cons, foldl_cons, ih, round_chain, blockWords_eq]
  have hstart : Variables.chain ⟨load state.h0, load state.h1, load state.h2, load state.h3, load state.h4⟩ = state.chain := by
    unfold Variables.chain Words.chain
    simp only [bits_load]
  unfold compress Sha1.compress
  dsimp only
  rw [← hstart, ← hrounds]
  unfold Words.chain Variables.chain Sha1.Chain.add
  simp only [toBitVec_store, bits_add]

/-! ## The state -/

/-- `target.set(source, offset)`, where the source fits. -/
def setBytes (target source : List UInt8) (offset : Nat) : List UInt8 :=
  target.take offset ++ source ++ target.drop (offset + source.length)

theorem length_setBytes {target source : List UInt8} {offset : Nat} (h : offset + source.length ≤ target.length) :
    (setBytes target source offset).length = target.length := by
  unfold setBytes
  rw [length_append, length_append, length_take, length_drop]
  omega

/-- `_block` keeps what was in it behind its first `_blockLength` bytes. -/
structure Sha1CompressionState where
  state : Words
  block : List UInt8
  blockLength : Nat
  block_length : block.length = 64
  blockLength_lt : blockLength < 64

def compressFrom (input : List UInt8) (state : Words) (offset : Nat) : Words × Nat :=
  if offset + 64 ≤ input.length then compressFrom input (compress state input offset) (offset + 64) else (state, offset)
termination_by input.length - offset

theorem compressFrom_lt (input : List UInt8) (state : Words) (offset : Nat) :
    input.length < (compressFrom input state offset).2 + 64 := by
  fun_induction compressFrom input state offset with
  | case1 state offset hblock ih => exact ih
  | case2 state offset hblock => exact Nat.not_le.1 hblock

namespace Sha1CompressionState

def new : Sha1CompressionState :=
  ⟨⟨0x67452301, 0xefcdab89, 0x98badcfe, 0x10325476, 0xc3d2e1f0⟩, List.replicate 64 0, 0, rfl, by decide⟩

/-- `update` from where the buffer is empty. -/
def updateFrom (state : Words) (block : List UInt8) (hblock : block.length = 64) (input : List UInt8) (offset : Nat) :
    Sha1CompressionState :=
  let r := compressFrom input state offset
  if r.2 < input.length then
    { state := r.1
      block := setBytes block (input.drop r.2) 0
      blockLength := input.length - r.2
      block_length := by
        have : input.length < r.2 + 64 := compressFrom_lt input state offset
        rw [length_setBytes (by rw [List.length_drop]; omega), hblock]
      blockLength_lt := by
        have : input.length < r.2 + 64 := compressFrom_lt input state offset
        omega }
  else ⟨r.1, block, 0, hblock, by decide⟩

def update (s : Sha1CompressionState) (input : List UInt8) : Sha1CompressionState :=
  if s.blockLength ≠ 0 then
    let accepted := min input.length (64 - s.blockLength)
    let block := setBytes s.block (input.take accepted) s.blockLength
    have hblock : block.length = 64 := by
      have := s.blockLength_lt
      rw [length_setBytes (by rw [List.length_take, s.block_length]; omega), s.block_length]
    if hpart : s.blockLength + accepted < 64 then ⟨s.state, block, s.blockLength + accepted, hblock, hpart⟩
    else updateFrom (compress s.state block 0) block hblock input accepted
  else updateFrom s.state s.block s.block_length input 0

/-- `none` where it throws, between blocks. -/
def stateLittleEndian (s : Sha1CompressionState) : Option (List UInt8) :=
  if s.blockLength ≠ 0 then none
  else some ([s.state.h0, s.state.h1, s.state.h2, s.state.h3, s.state.h4].flatMap
    (fun word => (Endian.big 4 word.toNat).reverse))

structure Absorbed (s : Sha1CompressionState) (bytes : List UInt8) : Prop where
  state : s.state.chain = Sha1.chain bytes
  block : s.block.take s.blockLength = Sha1.carry bytes

theorem absorbed_new : Absorbed new [] := ⟨rfl, rfl⟩

variable {s : Sha1CompressionState} {bytes : List UInt8}

theorem Absorbed.blockLength (h : Absorbed s bytes) :
    s.blockLength = bytes.length % 64 := by
  have hlength := congrArg List.length h.block
  have := s.blockLength_lt
  rw [length_take, s.block_length, Sha1.length_carry] at hlength
  omega

theorem compressFrom_chain (input : List UInt8) (state : Words) (offset : Nat) (hoffset : offset ≤ input.length) :
    (compressFrom input state offset).1.chain = Sha1.chainFrom state.chain (input.drop offset) ∧
      (compressFrom input state offset).2 ≤ input.length ∧
      input.drop (compressFrom input state offset).2 = Sha1.carry (input.drop offset) := by
  fun_induction compressFrom input state offset with
  | case1 state offset hblock ih =>
    have hlong : 64 ≤ (input.drop offset).length := by
      rw [length_drop]
      omega
    obtain ⟨hchain, hle, hcarry⟩ := ih hblock
    rw [Sha1.chainFrom_of_long hlong, Sha1.carry_of_long hlong, drop_drop, ← compress_chain]
    exact ⟨hchain, hle, hcarry⟩
  | case2 state offset hblock =>
    have hshort : (input.drop offset).length < 64 := by
      rw [length_drop]
      omega
    rw [Sha1.chainFrom_of_short hshort, Sha1.carry_of_short hshort]
    exact ⟨rfl, hoffset, rfl⟩

theorem updateFrom_spec (state : Words) (block : List UInt8) (hblock : block.length = 64) (input : List UInt8) (offset : Nat)
    (hoffset : offset ≤ input.length) :
    (updateFrom state block hblock input offset).state.chain = Sha1.chainFrom state.chain (input.drop offset) ∧
      (updateFrom state block hblock input offset).block.take (updateFrom state block hblock input offset).blockLength =
        Sha1.carry (input.drop offset) := by
  obtain ⟨hchain, hle, hcarry⟩ := compressFrom_chain input state offset hoffset
  unfold updateFrom
  dsimp only
  by_cases hrest : (compressFrom input state offset).2 < input.length
  · rw [if_pos hrest]
    refine ⟨hchain, ?_⟩
    have hlen : (input.drop (compressFrom input state offset).2).length = input.length - (compressFrom input state offset).2 :=
      length_drop
    dsimp only
    unfold setBytes
    rw [take_zero, nil_append, ← hlen, take_left, hcarry]
  · rw [if_neg hrest]
    refine ⟨hchain, ?_⟩
    rw [← hcarry, drop_of_length_le (by omega)]
    rfl

theorem length_buffer (s : Sha1CompressionState) : (s.block.take s.blockLength).length = s.blockLength := by
  have := s.blockLength_lt
  rw [length_take, s.block_length]
  omega

theorem absorbed_full (h : Absorbed s bytes) (input : List UInt8)
    {accepted : Nat} (hroom : s.blockLength + accepted = 64) (haccepted : accepted ≤ input.length)
    (hblock : (setBytes s.block (input.take accepted) s.blockLength).length = 64) :
    Absorbed (updateFrom (compress s.state (setBytes s.block (input.take accepted) s.blockLength) 0) _ hblock input accepted)
      (bytes ++ input) := by
  obtain ⟨hchain, hcarry⟩ := Sha1.chain_append bytes input
  have hlength : (Sha1.carry bytes).length = s.blockLength := by rw [← h.block, s.length_buffer]
  have hlong : 64 ≤ (Sha1.carry bytes ++ input).length := by
    rw [length_append, hlength]
    omega
  have hfull : setBytes s.block (input.take accepted) s.blockLength = (Sha1.carry bytes ++ input).take 64 := by
    unfold setBytes
    rw [h.block, drop_of_length_le (by rw [s.block_length, length_take]; omega), append_nil,
      take_append, take_of_length_le (show (Sha1.carry bytes).length ≤ 64 by omega), hlength, ← hroom,
      Nat.add_sub_cancel_left]
  have hdrop : (Sha1.carry bytes ++ input).drop 64 = input.drop accepted := by
    rw [drop_append, drop_of_length_le (by omega), nil_append, hlength, ← hroom, Nat.add_sub_cancel_left]
  rw [Sha1.chainFrom_of_long hlong, hdrop] at hchain
  rw [Sha1.carry_of_long hlong, hdrop] at hcarry
  obtain ⟨hstate, hrest⟩ := updateFrom_spec
    (compress s.state (setBytes s.block (input.take accepted) s.blockLength) 0) _ hblock input accepted haccepted
  refine ⟨?_, by rw [hrest, hcarry]⟩
  rw [hstate, hchain, compress_chain, h.state, hfull, drop_zero, take_take, Nat.min_self]

/-- **`update` takes the state behind some bytes to the one behind the chunk as well.** -/
theorem Absorbed.absorbed_update (h : Absorbed s bytes)
    (input : List UInt8) : Absorbed (s.update input) (bytes ++ input) := by
  obtain ⟨hchain, hcarry⟩ := Sha1.chain_append bytes input
  have hbuffer := s.length_buffer
  unfold update
  by_cases hempty : s.blockLength = 0
  · rw [if_neg (not_not.2 hempty)]
    have hnil : Sha1.carry bytes = [] := by
      rw [← h.block, hempty]
      rfl
    rw [hnil, nil_append] at hchain hcarry
    obtain ⟨hstate, hblock⟩ := updateFrom_spec s.state s.block s.block_length input 0 (Nat.zero_le _)
    rw [drop_zero] at hstate hblock
    exact ⟨by rw [hstate, h.state, hchain], by rw [hblock, hcarry]⟩
  · rw [if_pos hempty]
    dsimp only
    by_cases hpart : s.blockLength + min input.length (64 - s.blockLength) < 64
    · rw [dif_pos hpart]
      have haccepted : min input.length (64 - s.blockLength) = input.length := by omega
      have hshort : (Sha1.carry bytes ++ input).length < 64 := by
        rw [length_append, ← h.block, hbuffer]
        omega
      rw [Sha1.chainFrom_of_short hshort] at hchain
      rw [Sha1.carry_of_short hshort] at hcarry
      refine ⟨by rw [hchain]; exact h.state, ?_⟩
      dsimp only
      rw [haccepted, take_length, hcarry, ← h.block]
      unfold setBytes
      exact take_left' (by rw [length_append, hbuffer])
    · rw [dif_neg hpart]
      have := s.blockLength_lt
      exact absorbed_full h input (by omega) (Nat.min_le_left _ _) _

theorem absorbed_updates (chunks : List (List UInt8)) : Absorbed (chunks.foldl update new) chunks.flatten := by
  induction chunks using List.reverseRecOn with
  | nil => exact absorbed_new
  | append_singleton chunks chunk ih =>
    rw [foldl_append, flatten_append, flatten_singleton]
    exact ih.absorbed_update chunk

/-- **At the end of a block the state is the chaining value.** -/
theorem Absorbed.stateLittleEndian (h : Absorbed s bytes)
    (hblocks : 64 ∣ bytes.length) : s.stateLittleEndian = some (Sha1.chain bytes).little := by
  unfold Sha1CompressionState.stateLittleEndian
  rw [if_neg (by rw [h.blockLength, Nat.mod_eq_zero_of_dvd hblocks]; simp), ← h.state]
  rfl

end Sha1CompressionState

/-! ## The source -/

abbrev Hex := List Char

def hexDigit (n : Nat) : Char := "0123456789abcdef".toList.getD n '0'

/-- `toString('hex')`. -/
def hex (bytes : List UInt8) : Hex := bytes.flatMap (fun byte => [hexDigit (byte.toNat / 16), hexDigit (byte.toNat % 16)])

/-- A `Hash` of node:crypto. -/
structure NodeHash where
  State : Type
  create : State
  update : State → List UInt8 → State
  digest : State → List UInt8

/-- The digest is that of what was put in, whatever the pieces. -/
def NodeHash.Computes (h : NodeHash) (hash : List UInt8 → List UInt8) : Prop :=
  ∀ chunks : List (List UInt8), h.digest (chunks.foldl h.update h.create) = hash chunks.flatten

/-- A source: each chunk with whether the signal is aborted once it is there, and what the stream fails with behind them. -/
structure IMMediaSource (ε : Type) where
  size : Option Nat
  stream : List (List UInt8 × Bool)
  failure : Option ε

def IMMediaSource.bytes {ε : Type} (source : IMMediaSource ε) : List UInt8 := (source.stream.map Prod.fst).flatten

inductive HashError (ε : Type)
  | aborted
  | failed (reason : ε)
  | unaligned
  | incomplete (expected streamed : Nat)

/-- `sha1State`, `sha1Bytes` and `sha1Checkpoints`. -/
structure Checkpoints where
  sha1State : Sha1CompressionState
  sha1Bytes : Nat
  sha1Checkpoints : List Hex
  sha1Bytes_lt : sha1Bytes < QQ_VIDEO_SHA1_CHECKPOINT_BYTES

/-- A chunk from `offset` on, cut again at every MiB. -/
def recut (c : Checkpoints) (chunk : List UInt8) (offset : Nat) : Option Checkpoints :=
  if offset < chunk.length then
    let length := min (chunk.length - offset) (QQ_VIDEO_SHA1_CHECKPOINT_BYTES - c.sha1Bytes)
    let sha1State := c.sha1State.update ((chunk.drop offset).take length)
    if hfull : c.sha1Bytes + length = QQ_VIDEO_SHA1_CHECKPOINT_BYTES then
      match sha1State.stateLittleEndian with
      | none       => none
      | some bytes => recut ⟨sha1State, 0, c.sha1Checkpoints ++ [hex bytes], by decide⟩ chunk (offset + length)
    else recut ⟨sha1State, c.sha1Bytes + length, c.sha1Checkpoints, by have := c.sha1Bytes_lt; omega⟩ chunk (offset + length)
  else some c
termination_by chunk.length - offset
decreasing_by
  all_goals
    have := c.sha1Bytes_lt
    omega

/-- What `hashMediaSource` keeps over the loop. -/
structure Progress (md5Hash sha1Hash : NodeHash) where
  md5 : md5Hash.State
  sha1 : sha1Hash.State
  checkpoints : Option Checkpoints
  first10M : md5Hash.State
  size : Nat
  first10MSize : Nat

structure MediaHashes where
  size : Nat
  md5 : Hex
  sha1 : Hex
  sha1Checkpoints : Option (List Hex)
  file10MMd5 : Hex
deriving DecidableEq

variable {ε : Type} (md5Hash sha1Hash : NodeHash)

def checkpointsBehind (chunk : List UInt8) : Option Checkpoints → Except (HashError ε) (Option Checkpoints)
  | none   => .ok none
  | some c => match recut c chunk 0 with
    | none   => .error .unaligned
    | some c => .ok (some c)

def hashChunk (p : Progress md5Hash sha1Hash) (chunk : List UInt8) (aborted : Bool) :
    Except (HashError ε) (Progress md5Hash sha1Hash) :=
  if aborted then .error .aborted
  else match checkpointsBehind chunk p.checkpoints with
    | .error e        => .error e
    | .ok checkpoints =>
      let p := { p with
        size := p.size + chunk.length
        md5 := md5Hash.update p.md5 chunk
        sha1 := sha1Hash.update p.sha1 chunk
        checkpoints := checkpoints }
      if p.first10MSize < FIRST_10M_LIMIT then
        let accepted := chunk.take (min chunk.length (FIRST_10M_LIMIT - p.first10MSize))
        .ok { p with first10M := md5Hash.update p.first10M accepted, first10MSize := p.first10MSize + accepted.length }
      else .ok p

def hashChunks : Progress md5Hash sha1Hash → List (List UInt8 × Bool) → Except (HashError ε) (Progress md5Hash sha1Hash)
  | p, []                       => .ok p
  | p, (chunk, aborted) :: rest => match hashChunk md5Hash sha1Hash p chunk aborted with
    | .error e => .error e
    | .ok p    => hashChunks p rest

def finalCheckpoints (sha1Digest : Hex) (c : Checkpoints) : List Hex :=
  if 0 < c.sha1Bytes then c.sha1Checkpoints ++ [sha1Digest]
  else if c.sha1Checkpoints.length ≠ 0 then c.sha1Checkpoints.set (c.sha1Checkpoints.length - 1) sha1Digest
  else c.sha1Checkpoints

def hashMediaSource (source : IMMediaSource ε) (cumulativeSha1 : Bool) : Except (HashError ε) MediaHashes :=
  let start : Progress md5Hash sha1Hash :=
    { md5 := md5Hash.create
      sha1 := sha1Hash.create
      checkpoints := if cumulativeSha1 then some ⟨.new, 0, [], by decide⟩ else none
      first10M := md5Hash.create
      size := 0
      first10MSize := 0 }
  match hashChunks md5Hash sha1Hash start source.stream with
  | .error e => .error e
  | .ok p    => match source.failure with
    | some reason => .error (.failed reason)
    | none        =>
      if source.size.any (fun size => p.size ≠ size) then .error (.incomplete (source.size.getD 0) p.size)
      else
        let sha1Digest := hex (sha1Hash.digest p.sha1)
        .ok
          { size := p.size
            md5 := hex (md5Hash.digest p.md5)
            sha1 := sha1Digest
            sha1Checkpoints := p.checkpoints.map (finalCheckpoints sha1Digest)
            file10MMd5 := hex (md5Hash.digest p.first10M) }

/-! ## What is declared -/

/-- The state behind `index + 1` MiB. -/
def checkpointAt (bytes : List UInt8) (index : Nat) : Hex :=
  hex (Sha1.chain (bytes.take ((index + 1) * QQ_VIDEO_SHA1_CHECKPOINT_BYTES))).little

/-- A checkpoint for each MiB that was begun, the last of them the digest. -/
def declaredCheckpoints (bytes : List UInt8) (sha1Digest : Hex) : List Hex :=
  let count := (bytes.length + QQ_VIDEO_SHA1_CHECKPOINT_BYTES - 1) / QQ_VIDEO_SHA1_CHECKPOINT_BYTES
  (List.range count).map (fun index => if index + 1 = count then sha1Digest else checkpointAt bytes index)

structure Taken (c : Checkpoints) (bytes : List UInt8) : Prop where
  state : c.sha1State.Absorbed bytes
  sha1Bytes : c.sha1Bytes = bytes.length % QQ_VIDEO_SHA1_CHECKPOINT_BYTES
  sha1Checkpoints : c.sha1Checkpoints =
    (List.range (bytes.length / QQ_VIDEO_SHA1_CHECKPOINT_BYTES)).map (checkpointAt bytes)

variable {bytes : List UInt8}

theorem checkpointAt_append {index : Nat}
    (h : (index + 1) * QQ_VIDEO_SHA1_CHECKPOINT_BYTES ≤ bytes.length) (piece : List UInt8) :
    checkpointAt (bytes ++ piece) index = checkpointAt bytes index := by
  unfold checkpointAt
  rw [take_append_of_le_length h]

theorem map_checkpointAt_append (bytes piece : List UInt8) :
    (List.range (bytes.length / QQ_VIDEO_SHA1_CHECKPOINT_BYTES)).map (checkpointAt (bytes ++ piece)) =
      (List.range (bytes.length / QQ_VIDEO_SHA1_CHECKPOINT_BYTES)).map (checkpointAt bytes) := by
  apply map_congr_left
  intro index hindex
  have hindex := mem_range.1 hindex
  refine checkpointAt_append ?_ piece
  calc (index + 1) * QQ_VIDEO_SHA1_CHECKPOINT_BYTES
      ≤ bytes.length / QQ_VIDEO_SHA1_CHECKPOINT_BYTES * QQ_VIDEO_SHA1_CHECKPOINT_BYTES := Nat.mul_le_mul_right _ hindex
    _ ≤ bytes.length := Nat.div_mul_le_self _ _

variable {c : Checkpoints}

theorem Taken.part (h : Taken c bytes) (piece : List UInt8) {length : Nat}
    (hlength : piece.length = length) (hpart : c.sha1Bytes + length < QQ_VIDEO_SHA1_CHECKPOINT_BYTES) :
    Taken ⟨c.sha1State.update piece, c.sha1Bytes + length, c.sha1Checkpoints, hpart⟩ (bytes ++ piece) := by
  subst hlength
  have hbytes := h.sha1Bytes
  have hdiv : (bytes ++ piece).length / QQ_VIDEO_SHA1_CHECKPOINT_BYTES = bytes.length / QQ_VIDEO_SHA1_CHECKPOINT_BYTES := by
    rw [length_append]
    unfold QQ_VIDEO_SHA1_CHECKPOINT_BYTES at hbytes hpart ⊢
    omega
  refine ⟨h.state.absorbed_update piece, ?_, ?_⟩
  · show c.sha1Bytes + piece.length = _
    rw [length_append]
    unfold QQ_VIDEO_SHA1_CHECKPOINT_BYTES at hbytes hpart ⊢
    omega
  · rw [hdiv, map_checkpointAt_append]
    exact h.sha1Checkpoints

theorem Taken.full (h : Taken c bytes) (piece : List UInt8)
    (hfull : c.sha1Bytes + piece.length = QQ_VIDEO_SHA1_CHECKPOINT_BYTES) :
    ∃ state, (c.sha1State.update piece).stateLittleEndian = some state ∧
      Taken ⟨c.sha1State.update piece, 0, c.sha1Checkpoints ++ [hex state], by decide⟩ (bytes ++ piece) := by
  have hbytes := h.sha1Bytes
  have hlength : (bytes ++ piece).length =
      (bytes.length / QQ_VIDEO_SHA1_CHECKPOINT_BYTES + 1) * QQ_VIDEO_SHA1_CHECKPOINT_BYTES := by
    rw [length_append]
    unfold QQ_VIDEO_SHA1_CHECKPOINT_BYTES at hbytes hfull ⊢
    omega
  have habsorbed := h.state.absorbed_update piece
  have hblocks : 64 ∣ (bytes ++ piece).length := by
    rw [hlength]
    exact Nat.dvd_mul_left_of_dvd (by decide) _
  refine ⟨_, habsorbed.stateLittleEndian hblocks, habsorbed, ?_, ?_⟩
  · rw [hlength, Nat.mul_mod_left]
  · rw [hlength, Nat.mul_div_cancel _ (by decide), range_succ, map_append, map_checkpointAt_append,
      ← h.sha1Checkpoints, map_singleton]
    unfold checkpointAt
    rw [← hlength, take_length]

/-- **A chunk is cut at every MiB it goes over.** -/
theorem recut_taken (h : Taken c bytes) (chunk : List UInt8) (offset : Nat) :
    ∃ c', recut c chunk offset = some c' ∧ Taken c' (bytes ++ chunk.drop offset) := by
  induction hn : chunk.length - offset using Nat.strongRecOn generalizing c bytes offset with
  | ind n ih =>
    rw [recut]
    by_cases hmore : offset < chunk.length
    · rw [if_pos hmore]
      dsimp only
      have hlt := c.sha1Bytes_lt
      have hlength : ((chunk.drop offset).take
          (min (chunk.length - offset) (QQ_VIDEO_SHA1_CHECKPOINT_BYTES - c.sha1Bytes))).length =
          min (chunk.length - offset) (QQ_VIDEO_SHA1_CHECKPOINT_BYTES - c.sha1Bytes) := by
        rw [length_take, length_drop]
        omega
      have hcut : ∀ length, bytes ++ chunk.drop offset =
          (bytes ++ (chunk.drop offset).take length) ++ chunk.drop (offset + length) := fun length => by
        rw [append_assoc, ← drop_drop, take_append_drop]
      rw [hcut (min (chunk.length - offset) (QQ_VIDEO_SHA1_CHECKPOINT_BYTES - c.sha1Bytes))]
      by_cases hfull : c.sha1Bytes + min (chunk.length - offset) (QQ_VIDEO_SHA1_CHECKPOINT_BYTES - c.sha1Bytes) =
          QQ_VIDEO_SHA1_CHECKPOINT_BYTES
      · obtain ⟨state, hstate, htaken⟩ := h.full _ (by rw [hlength]; exact hfull)
        rw [dif_pos hfull, hstate]
        exact ih _ (by omega) htaken _ rfl
      · rw [dif_neg hfull]
        exact ih _ (by omega) (h.part _ hlength (by omega)) _ rfl
    · rw [if_neg hmore, drop_of_length_le (Nat.not_lt.1 hmore), append_nil]
      exact ⟨c, rfl, h⟩

theorem finalCheckpoints_eq (h : Taken c bytes) (sha1Digest : Hex) :
    finalCheckpoints sha1Digest c = declaredCheckpoints bytes sha1Digest := by
  have hbytes := h.sha1Bytes
  unfold finalCheckpoints declaredCheckpoints
  dsimp only
  by_cases hpart : 0 < c.sha1Bytes
  · have hcount : (bytes.length + QQ_VIDEO_SHA1_CHECKPOINT_BYTES - 1) / QQ_VIDEO_SHA1_CHECKPOINT_BYTES =
        bytes.length / QQ_VIDEO_SHA1_CHECKPOINT_BYTES + 1 := by
      unfold QQ_VIDEO_SHA1_CHECKPOINT_BYTES at hbytes ⊢
      omega
    rw [if_pos hpart, hcount, range_succ, map_append, map_singleton, if_pos rfl, h.sha1Checkpoints]
    congr 1
    apply map_congr_left
    intro index hindex
    have hindex := mem_range.1 hindex
    rw [if_neg (by omega)]
  · have hcount : (bytes.length + QQ_VIDEO_SHA1_CHECKPOINT_BYTES - 1) / QQ_VIDEO_SHA1_CHECKPOINT_BYTES =
        bytes.length / QQ_VIDEO_SHA1_CHECKPOINT_BYTES := by
      unfold QQ_VIDEO_SHA1_CHECKPOINT_BYTES at hbytes ⊢
      omega
    rw [if_neg hpart, hcount, h.sha1Checkpoints]
    cases hfull : bytes.length / QQ_VIDEO_SHA1_CHECKPOINT_BYTES with
    | zero => rfl
    | succ count =>
      have hlength : ((List.range (count + 1)).map (checkpointAt bytes)).length = count + 1 := by
        rw [length_map, length_range]
      rw [if_pos (by rw [hlength]; omega), hlength, Nat.add_sub_cancel, range_succ, map_append, map_append,
        map_singleton, map_singleton, if_pos rfl, set_append_right _ _ (by simp)]
      congr 1
      · apply map_congr_left
        intro index hindex
        have hindex := mem_range.1 hindex
        rw [if_neg (by omega)]
      · rw [length_map, length_range, Nat.sub_self]
        rfl

/-! ## The digests -/

def NodeHash.Fed (h : NodeHash) (state : h.State) (bytes : List UInt8) : Prop :=
  ∃ chunks : List (List UInt8), state = chunks.foldl h.update h.create ∧ chunks.flatten = bytes

theorem NodeHash.fed_create (h : NodeHash) : h.Fed h.create [] := ⟨[], rfl, rfl⟩

theorem NodeHash.Fed.update {h : NodeHash} {state : h.State} (hfed : h.Fed state bytes)
    (chunk : List UInt8) : h.Fed (h.update state chunk) (bytes ++ chunk) := by
  obtain ⟨chunks, rfl, rfl⟩ := hfed
  refine ⟨chunks ++ [chunk], ?_, ?_⟩
  · rw [foldl_append]
    rfl
  · rw [flatten_append, flatten_singleton]

theorem NodeHash.Fed.digest {h : NodeHash} {state : h.State} (hfed : h.Fed state bytes)
    {hash : List UInt8 → List UInt8} (hhash : h.Computes hash) : h.digest state = hash bytes := by
  obtain ⟨chunks, rfl, rfl⟩ := hfed
  exact hhash chunks

structure Hashed (cumulativeSha1 : Bool) (p : Progress md5Hash sha1Hash) (bytes : List UInt8) : Prop where
  size : p.size = bytes.length
  md5 : md5Hash.Fed p.md5 bytes
  sha1 : sha1Hash.Fed p.sha1 bytes
  first10M : md5Hash.Fed p.first10M (bytes.take FIRST_10M_LIMIT)
  first10MSize : p.first10MSize = min bytes.length FIRST_10M_LIMIT
  off : cumulativeSha1 = false → p.checkpoints = none
  on : cumulativeSha1 = true → ∃ c, p.checkpoints = some c ∧ Taken c bytes

variable {md5Hash sha1Hash} {cumulativeSha1 : Bool}

theorem checkpointsBehind_eq {p : Progress md5Hash sha1Hash}
    (h : Hashed md5Hash sha1Hash cumulativeSha1 p bytes) (chunk : List UInt8) :
    ∃ checkpoints, checkpointsBehind (ε := ε) chunk p.checkpoints = .ok checkpoints ∧
      (cumulativeSha1 = false → checkpoints = none) ∧
      (cumulativeSha1 = true → ∃ c, checkpoints = some c ∧ Taken c (bytes ++ chunk)) := by
  cases cumulativeSha1 with
  | false =>
    rw [h.off rfl]
    exact ⟨none, rfl, fun _ => rfl, fun hon => (by cases hon)⟩
  | true =>
    obtain ⟨c, hc, htaken⟩ := h.on rfl
    obtain ⟨c', hrecut, htaken'⟩ := recut_taken htaken chunk 0
    refine ⟨some c', ?_, fun hoff => (by cases hoff), fun _ => ⟨c', rfl, htaken'⟩⟩
    rw [hc]
    unfold checkpointsBehind
    dsimp only
    rw [hrecut]

/-- **One turn of the loop.** -/
theorem hashChunk_hashed {p : Progress md5Hash sha1Hash}
    (h : Hashed md5Hash sha1Hash cumulativeSha1 p bytes) (chunk : List UInt8) :
    ∃ p', hashChunk (ε := ε) md5Hash sha1Hash p chunk false = .ok p' ∧
      Hashed md5Hash sha1Hash cumulativeSha1 p' (bytes ++ chunk) := by
  obtain ⟨checkpoints, hbehind, hoff, hon⟩ := checkpointsBehind_eq (ε := ε) h chunk
  have hsize : p.size + chunk.length = (bytes ++ chunk).length := by rw [h.size, length_append]
  have hfirst := h.first10MSize
  unfold hashChunk
  rw [if_neg Bool.false_ne_true, hbehind]
  dsimp only
  by_cases hroom : p.first10MSize < FIRST_10M_LIMIT
  · rw [if_pos hroom]
    have hshort : bytes.length < FIRST_10M_LIMIT := by omega
    have htake : (bytes ++ chunk).take FIRST_10M_LIMIT = bytes.take FIRST_10M_LIMIT ++
        chunk.take (min chunk.length (FIRST_10M_LIMIT - p.first10MSize)) := by
      rw [take_append, hfirst, Nat.min_eq_left (Nat.le_of_lt hshort)]
      congr 1
      rw [take_eq_take_iff]
      omega
    refine ⟨_, rfl, hsize, h.md5.update chunk, h.sha1.update chunk, ?_, ?_, hoff, hon⟩
    · rw [htake]
      exact h.first10M.update _
    · rw [length_append, length_take]
      dsimp only
      omega
  · rw [if_neg hroom]
    have hlong : FIRST_10M_LIMIT ≤ bytes.length := by omega
    refine ⟨_, rfl, hsize, h.md5.update chunk, h.sha1.update chunk, ?_, ?_, hoff, hon⟩
    · rw [take_append_of_le_length hlong]
      exact h.first10M
    · rw [length_append]
      dsimp only
      omega

/-- **The whole loop**, where nothing is aborted. -/
theorem hashChunks_hashed : ∀ (stream : List (List UInt8 × Bool)) {p : Progress md5Hash sha1Hash} {bytes : List UInt8},
    Hashed md5Hash sha1Hash cumulativeSha1 p bytes → (∀ entry ∈ stream, entry.2 = false) →
    ∃ p', hashChunks (ε := ε) md5Hash sha1Hash p stream = .ok p' ∧
      Hashed md5Hash sha1Hash cumulativeSha1 p' (bytes ++ (stream.map Prod.fst).flatten)
  | [], p, bytes, h, _ => ⟨p, rfl, by rw [map_nil, flatten_nil, append_nil]; exact h⟩
  | (chunk, aborted) :: stream, p, bytes, h, hstream => by
    have haborted : aborted = false := hstream (chunk, aborted) mem_cons_self
    obtain ⟨p', hchunk, hhashed⟩ := hashChunk_hashed (ε := ε) h chunk
    obtain ⟨p'', hrest, hhashed'⟩ := hashChunks_hashed stream hhashed (fun e he => hstream e (mem_cons_of_mem _ he))
    refine ⟨p'', ?_, ?_⟩
    · unfold hashChunks
      rw [haborted, hchunk]
      exact hrest
    · rw [map_cons, flatten_cons, ← append_assoc]
      exact hhashed'

/-- A source that is read to its end, of the size it names. -/
structure IMMediaSource.Whole (source : IMMediaSource ε) : Prop where
  unaborted : ∀ entry ∈ source.stream, entry.2 = false
  unfailed : source.failure = none
  size : ∀ size, source.size = some size → size = source.bytes.length

/-- **What is declared does not depend on the chunks**: the digests are those of the bytes, and the checkpoints the chaining
values at each MiB of them. -/
theorem hashMediaSource_eq (md5Hash sha1Hash : NodeHash) {md5 : List UInt8 → List UInt8} (hmd5 : md5Hash.Computes md5)
    (hsha1 : sha1Hash.Computes Sha1.digest) (source : IMMediaSource ε) (hsource : source.Whole) (cumulativeSha1 : Bool) :
    hashMediaSource md5Hash sha1Hash source cumulativeSha1 = .ok
      { size := source.bytes.length
        md5 := hex (md5 source.bytes)
        sha1 := hex (Sha1.digest source.bytes)
        sha1Checkpoints :=
          if cumulativeSha1 then some (declaredCheckpoints source.bytes (hex (Sha1.digest source.bytes))) else none
        file10MMd5 := hex (md5 (source.bytes.take FIRST_10M_LIMIT)) } ∧
    ∀ chunks : List (List UInt8), 64 ∣ chunks.flatten.length →
      (chunks.foldl Sha1CompressionState.update .new).stateLittleEndian = some (Sha1.chain chunks.flatten).little := by
  refine ⟨?_, fun chunks hblocks => (Sha1CompressionState.absorbed_updates chunks).stateLittleEndian hblocks⟩
  have hstart : Hashed md5Hash sha1Hash cumulativeSha1
      { md5 := md5Hash.create
        sha1 := sha1Hash.create
        checkpoints := if cumulativeSha1 then some ⟨.new, 0, [], by decide⟩ else none
        first10M := md5Hash.create
        size := 0
        first10MSize := 0 } [] := by
    refine ⟨rfl, md5Hash.fed_create, sha1Hash.fed_create, md5Hash.fed_create, rfl, ?_, ?_⟩
    · rintro rfl
      rfl
    · rintro rfl
      exact ⟨_, rfl, Sha1CompressionState.absorbed_new, rfl, rfl⟩
  obtain ⟨p, hrun, hp⟩ := hashChunks_hashed (ε := ε) source.stream hstart hsource.unaborted
  rw [nil_append] at hp
  have hsize : ¬source.size.any (fun size => p.size ≠ size) = true := by
    cases hs : source.size with
    | none => exact Bool.false_ne_true
    | some size =>
      rw [Option.any_some, decide_eq_true_eq, not_not, hp.size, hsource.size size hs]
      rfl
  unfold hashMediaSource
  dsimp only
  rw [hrun, hsource.unfailed]
  dsimp only
  rw [if_neg hsize, hp.size, hp.md5.digest hmd5, hp.sha1.digest hsha1, hp.first10M.digest hmd5]
  cases cumulativeSha1 with
  | false =>
    rw [hp.off rfl]
    rfl
  | true =>
    obtain ⟨c, hc, htaken⟩ := hp.on rfl
    rw [hc, Option.map_some, finalCheckpoints_eq htaken, if_pos rfl]
    rfl

def bufferedHash (hash : List UInt8 → List UInt8) : NodeHash := ⟨List UInt8, [], List.append, hash⟩

theorem computes_bufferedHash (hash : List UInt8 → List UInt8) : (bufferedHash hash).Computes hash := by
  intro chunks
  show hash (chunks.foldl (fun bytes chunk => bytes ++ id chunk) []) = _
  rw [foldl_append_eq_append, map_id, nil_append]

theorem hashMediaSource_abc :
    hashMediaSource (ε := Empty)
      (bufferedHash fun _ => [0x90, 0x01, 0x50, 0x98, 0x3c, 0xd2, 0x4f, 0xb0, 0xd6, 0x96, 0x3f, 0x7d, 0x28, 0xe1, 0x7f, 0x72])
      (bufferedHash Sha1.digest) ⟨some 3, [([0x61], false), ([], false), ([0x62, 0x63], false)], none⟩ true =
      .ok
        { size := 3
          md5 := "900150983cd24fb0d6963f7d28e17f72".toList
          sha1 := "a9993e364706816aba3e25717850c26c9cd0d89d".toList
          sha1Checkpoints := some ["a9993e364706816aba3e25717850c26c9cd0d89d".toList]
          file10MMd5 := "900150983cd24fb0d6963f7d28e17f72".toList } := by
  rw [(hashMediaSource_eq _ _ (computes_bufferedHash _) (computes_bufferedHash _) _
    ⟨by decide, rfl, fun size h => (Option.some.inj h).symm⟩ true).1]
  apply congrArg Except.ok
  decide +kernel

end MediaHashing
end Crossgram
