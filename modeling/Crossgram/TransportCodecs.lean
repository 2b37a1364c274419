import Crossgram.Transport
/-!
# TransportCodecs — what a codec makes of the bytes that have arrived

Every codec shows the clear bytes it has to a decoder (`PacketCodec.find`, `PacketCodec.clear`), and a call of `decode`
takes from them what the decoder found (`decodes`).  The abridged decoder is stable and finds what was encoded.
-/
namespace Crossgram

open List

/-! ## Buffers -/

namespace Bytes

theorem rewind_readSync {buffer : Bytes} {n : Nat} (h : n ≤ buffer.available) :
    (buffer.readSync n).2.rewind n = buffer := by
  unfold available at h
  have hlength : (buffer.unread.take n).length = n := length_take_of_le h
  unfold rewind readSync
  simp only [length_append, hlength, Nat.add_sub_cancel, take_left, drop_left, take_append_drop]

theorem readSync_readSync (buffer : Bytes) (n m : Nat) :
    ((buffer.readSync n).2.readSync m).2 = (buffer.readSync (n + m)).2 := by
  unfold readSync
  simp only [append_assoc, drop_drop, take_add]

@[simp] theorem unread_readSync (buffer : Bytes) (n : Nat) : (buffer.readSync n).2.unread = buffer.unread.drop n := rfl

@[simp] theorem unread_writeSync (buffer : Bytes) (grow : Nat → Nat → Nat) (data : List UInt8) :
    (buffer.writeSync grow data).unread = buffer.unread ++ data := rfl

end Bytes

@[simp] theorem unread_reclaimReceiveBuffer (buffer : Bytes) (initialCapacity : Nat) :
    (reclaimReceiveBuffer buffer initialCapacity).unread = buffer.unread := by
  unfold reclaimReceiveBuffer
  split
  · rename_i h
    have hnil : buffer.unread = [] := eq_nil_of_length_eq_zero h
    split
    · exact hnil.symm
    · exact hnil.symm
  · rfl

/-! ## The abridged codec -/

namespace AbridgedPacketCodec

def findBody (header length : Nat) (body : List UInt8) : Framing.Outcome (List UInt8) :=
  if body.length < length then .incomplete else .frame (body.take length) (header + length)

/-- Behind the marker `0x7f` the length has three bytes. -/
def findLong : List UInt8 → Framing.Outcome (List UInt8)
  | b₀ :: b₁ :: b₂ :: body => findBody 4 ((b₀.toNat ||| (b₁.toNat <<< 8) ||| (b₂.toNat <<< 16)) * 4) body
  | _ => .incomplete

def find : List UInt8 → Framing.Outcome (List UInt8)
  | [] => .incomplete
  | first :: body =>
    if first.toNat &&& 0x7f < 0x7f then findBody 1 ((first.toNat &&& 0x7f) * 4) body else findLong body

theorem findBody_append {header length : Nat} {body : List UInt8} (h : findBody header length body ≠ .incomplete)
    (later : List UInt8) : findBody header length (body ++ later) = findBody header length body := by
  unfold findBody at h ⊢
  by_cases hlt : body.length < length
  · rw [if_pos hlt] at h
    exact absurd rfl h
  · rw [if_neg hlt, if_neg (by rw [length_append]; omega), take_append_of_le_length (by omega)]

theorem findBody_size {header length size : Nat} {body data : List UInt8}
    (h : findBody header length body = .frame data size) : size = header + length ∧ length ≤ body.length := by
  unfold findBody at h
  split at h
  · cases h
  · cases h
    exact ⟨rfl, by omega⟩

theorem findLong_append : ∀ {body : List UInt8}, findLong body ≠ .incomplete → ∀ later : List UInt8,
    findLong (body ++ later) = findLong body
  | _ :: _ :: _ :: _, h, later => findBody_append h later
  | [],               h, _     => absurd rfl h
  | [_],              h, _     => absurd rfl h
  | [_, _],           h, _     => absurd rfl h

theorem findLong_size : ∀ {body data : List UInt8} {size : Nat}, findLong body = .frame data size →
    0 < size ∧ size ≤ body.length + 1
  | _ :: _ :: _ :: _, _, _, h => by
    obtain ⟨hsize, hle⟩ := findBody_size h
    simp only [length_cons]
    omega

theorem stable_find : Framing.Stable find where
  stable
    | [],            _,  h => absurd rfl h
    | first :: body, ys, h => by
      rw [cons_append, find, find]
      rw [find] at h
      by_cases hshort : first.toNat &&& 0x7f < 0x7f
      · rw [if_pos hshort] at h ⊢
        rw [if_pos hshort]
        exact findBody_append h ys
      · rw [if_neg hshort] at h ⊢
        rw [if_neg hshort]
        exact findLong_append h ys
  size
    | first :: body, data, size, h => by
      rw [find] at h
      split at h
      · obtain ⟨hsize, hle⟩ := findBody_size h
        rw [length_cons]
        omega
      · rw [length_cons]
        exact findLong_size h

theorem decode_body (reader : Bytes) (header length : Nat) (h : header ≤ reader.available) :
    (if (reader.readSync header).2.available < length then (.ok none, (reader.readSync header).2.rewind header)
      else (.ok (some ((reader.readSync header).2.readSync length).1), ((reader.readSync header).2.readSync length).2) :
        Decoded × Bytes) =
    match findBody header length (reader.unread.drop header) with
    | .incomplete      => (.ok none, reader)
    | .frame data size => (.ok (some data), (reader.readSync size).2)
    | .fails           => (.error (), reader) := by
  have havailable : (reader.readSync header).2.available = (reader.unread.drop header).length := rfl
  rw [havailable]
  unfold findBody
  by_cases hlt : (reader.unread.drop header).length < length
  · simp only [if_pos hlt, Bytes.rewind_readSync h]
  · simp only [if_neg hlt, Bytes.readSync_readSync]
    rfl

theorem decode_eq (reader : Bytes) (eof : Bool) : decode reader eof = mtcuteDecode find reader eof := by
  unfold decode mtcuteDecode
  split
  · rfl
  · obtain ⟨taken, unread, capacity⟩ := reader
    match unread with
    | [] => rfl
    | first :: body =>
      refine (if_neg (Nat.not_lt.2 (Nat.le_add_left 1 body.length))).trans ?_
      dsimp only
      rw [find]
      by_cases hshort : first.toNat &&& 0x7f < 0x7f
      · rw [if_pos hshort]
        refine (if_pos hshort).trans ?_
        exact decode_body ⟨taken, first :: body, capacity⟩ 1 _ (Nat.le_add_left 1 body.length)
      · rw [if_neg hshort]
        refine (if_neg hshort).trans ?_
        match body with
        | [] => exact congrArg (Prod.mk _) (Bytes.rewind_readSync (Nat.le_refl 1))
        | [_] => exact congrArg (Prod.mk _) (Bytes.rewind_readSync (Nat.le_add_left 1 1))
        | [_, _] => exact congrArg (Prod.mk _) (Bytes.rewind_readSync (Nat.le_add_left 1 2))
        | b₀ :: b₁ :: b₂ :: body =>
          refine (if_neg (Nat.not_lt.2 (Nat.le_add_left 3 body.length))).trans ?_
          have hread := Bytes.readSync_readSync ⟨taken, first :: b₀ :: b₁ :: b₂ :: body, capacity⟩ 1 3
          simp only [hread]
          exact decode_body ⟨taken, first :: b₀ :: b₁ :: b₂ :: body, capacity⟩ 4 _ (Nat.le_add_left 4 body.length)

theorem words_of_bytes {words : Nat} (h : words < 0x1000000) :
    (UInt8.ofNat (words &&& 0xff)).toNat ||| ((UInt8.ofNat ((words >>> 8) &&& 0xff)).toNat <<< 8) |||
      ((UInt8.ofNat ((words >>> 16) &&& 0xff)).toNat <<< 16) = words := by
  have hmask : ∀ n, n &&& 0xff = n % 256 := fun n => Nat.and_two_pow_sub_one_eq_mod n 8
  simp only [hmask, UInt8.toNat_ofNat', Nat.shiftRight_eq_div_pow]
  have hlow : words % 256 % 2 ^ 8 ||| (words / 2 ^ 8 % 256 % 2 ^ 8) <<< 8 =
      (words / 2 ^ 8 % 256 % 2 ^ 8) <<< 8 + words % 256 % 2 ^ 8 := by
    rw [Nat.or_comm, Nat.shiftLeft_add_eq_or_of_lt (by omega)]
  rw [hlow, Nat.or_comm, ← Nat.shiftLeft_add_eq_or_of_lt (by simp only [Nat.shiftLeft_eq]; omega)]
  simp only [Nat.shiftLeft_eq]
  omega

theorem findBody_self (header : Nat) (frame rest : List UInt8) :
    findBody header frame.length (frame ++ rest) = .frame frame (header + frame.length) := by
  unfold findBody
  rw [if_neg (by rw [length_append]; omega), take_left]

/-- **The decoder finds what was encoded.** -/
theorem find_encode {frame : List UInt8} (h4 : frame.length % 4 = 0) (hlt : frame.length < 0x4000000) (rest : List UInt8) :
    find (encode frame ++ rest) = .frame frame (encode frame).length := by
  have hwords : frame.length >>> 2 * 4 = frame.length := by
    rw [Nat.shiftRight_eq_div_pow]
    omega
  unfold encode
  simp only
  by_cases hlong : 0x7f ≤ frame.length >>> 2
  · rw [if_pos hlong]
    have hbound : frame.length >>> 2 < 0x1000000 := by
      rw [Nat.shiftRight_eq_div_pow]
      omega
    have hbytes := words_of_bytes hbound
    show findBody 4 _ (frame ++ rest) = _
    rw [hbytes, hwords, findBody_self, length_append]
    rfl
  · rw [if_neg hlong, cons_append, find]
    have hmarker : (UInt8.ofNat (frame.length >>> 2)).toNat &&& 0x7f = frame.length >>> 2 := by
      have hmask : ∀ n, n &&& 0x7f = n % 128 := fun n => Nat.and_two_pow_sub_one_eq_mod n 7
      rw [hmask, UInt8.toNat_ofNat']
      omega
    rw [hmarker, if_pos (by omega), hwords, findBody_self, length_cons, Nat.add_comm]

end AbridgedPacketCodec

/-! ## Any codec -/

structure MtcuteCodecs.Stable (mtcute : MtcuteCodecs) : Prop where
  intermediate : Framing.Stable mtcute.intermediate
  paddedIntermediate : Framing.Stable mtcute.paddedIntermediate

def InnerCodec.find (mtcute : MtcuteCodecs) : InnerCodec → List UInt8 → Framing.Outcome (List UInt8)
  | .abridged           => AbridgedPacketCodec.find
  | .intermediate       => mtcute.intermediate
  | .paddedIntermediate => mtcute.paddedIntermediate

variable {mtcute : MtcuteCodecs}

theorem InnerCodec.stable_find (h : mtcute.Stable) :
    ∀ codec : InnerCodec, Framing.Stable (codec.find mtcute)
  | .abridged           => AbridgedPacketCodec.stable_find
  | .intermediate       => h.intermediate
  | .paddedIntermediate => h.paddedIntermediate

theorem InnerCodec.decode_eq (mtcute : MtcuteCodecs) : ∀ (codec : InnerCodec) (reader : Bytes) (eof : Bool),
    codec.decode mtcute reader eof = mtcuteDecode (codec.find mtcute) reader eof
  | .abridged,           reader, eof => AbridgedPacketCodec.decode_eq reader eof
  | .intermediate,       _,      _   => rfl
  | .paddedIntermediate, _,      _   => rfl

theorem applyKeystream_append (keystream : Nat → UInt8) : ∀ (position : Nat) (xs ys : List UInt8),
    applyKeystream keystream position (xs ++ ys) =
      applyKeystream keystream position xs ++ applyKeystream keystream (position + xs.length) ys
  | _,        [],      _  => rfl
  | position, x :: xs, ys => by
    rw [cons_append, applyKeystream, applyKeystream, applyKeystream_append keystream (position + 1) xs ys,
      cons_append, length_cons, Nat.add_right_comm, Nat.add_assoc]

theorem applyKeystream_self (keystream : Nat → UInt8) : ∀ (position : Nat) (xs : List UInt8),
    applyKeystream keystream position (applyKeystream keystream position xs) = xs
  | _,        []      => rfl
  | position, x :: xs => by
    rw [applyKeystream, applyKeystream, applyKeystream_self keystream (position + 1) xs, UInt8.xor_assoc, UInt8.xor_self,
      UInt8.xor_zero]

theorem length_applyKeystream (keystream : Nat → UInt8) : ∀ (position : Nat) (xs : List UInt8),
    (applyKeystream keystream position xs).length = xs.length
  | _,        []      => rfl
  | position, _ :: xs => by rw [applyKeystream, length_cons, length_applyKeystream keystream _ xs, length_cons]

namespace PacketCodec

def inner : PacketCodec → InnerCodec
  | .plain codec      => codec
  | .obfuscated codec => codec.inner

def find (mtcute : MtcuteCodecs) (codec : PacketCodec) : List UInt8 → Framing.Outcome (List UInt8) :=
  codec.inner.find mtcute

/-- The clear bytes a codec has once it has read `raw`. -/
def clear : PacketCodec → List UInt8 → List UInt8
  | .plain _,          raw => raw
  | .obfuscated codec, raw =>
    codec.decodeBuf.unread ++ applyKeystream codec.decryptor.keystream codec.decryptor.position raw

theorem clear_extends (codec : PacketCodec) (raw later : List UInt8) : codec.clear raw <+: codec.clear (raw ++ later) := by
  cases codec with
  | plain codec => exact prefix_append _ _
  | obfuscated codec =>
    unfold clear
    simp only
    rw [applyKeystream_append, ← append_assoc]
    exact prefix_append _ _

theorem length_clear (codec : PacketCodec) (raw : List UInt8) :
    (codec.clear raw).length = (codec.clear []).length + raw.length := by
  cases codec with
  | plain codec => exact (Nat.zero_add _).symm
  | obfuscated codec =>
    unfold clear
    simp only [length_append, length_applyKeystream, length_nil, Nat.add_zero]

/-- After a decoding `size` clear bytes are gone, whatever comes later. -/
structure Leaves (codec codec' : PacketCodec) (reader reader' : Bytes) (size : Nat) : Prop where
  transport : codec'.transport = codec.transport
  clear : ∀ later, codec'.clear (reader'.unread ++ later) = (codec.clear (reader.unread ++ later)).drop size

inductive Decodes (mtcute : MtcuteCodecs) (codec : PacketCodec) (reader : Bytes) : Decoded × PacketCodec × Bytes → Prop
  | incomplete {codec' : PacketCodec} {reader' : Bytes} :
      codec.find mtcute (codec.clear reader.unread) = .incomplete → Leaves codec codec' reader reader' 0 →
      Decodes mtcute codec reader (.ok none, codec', reader')
  | frame {data : List UInt8} {size : Nat} {codec' : PacketCodec} {reader' : Bytes} :
      codec.find mtcute (codec.clear reader.unread) = .frame data size → Leaves codec codec' reader reader' size →
      Decodes mtcute codec reader (.ok (some data), codec', reader')
  | fails {codec' : PacketCodec} {reader' : Bytes} :
      codec.find mtcute (codec.clear reader.unread) = .fails → codec'.transport = codec.transport →
      Decodes mtcute codec reader (.error (), codec', reader')

end PacketCodec

theorem ServerObfuscatedCodec.decipher_spec (grow : Nat → Nat → Nat) (codec : ServerObfuscatedCodec) (reader : Bytes) :
    (codec.decipher grow reader).1.inner = codec.inner ∧ (codec.decipher grow reader).2.unread = [] ∧
      (codec.decipher grow reader).1.decodeBuf.unread = (PacketCodec.obfuscated codec).clear reader.unread ∧
      ∀ later, (PacketCodec.obfuscated (codec.decipher grow reader).1).clear later =
        (PacketCodec.obfuscated codec).clear (reader.unread ++ later) := by
  unfold decipher
  by_cases h : 0 < reader.available
  · rw [if_pos h]
    have htake : (reader.readSync reader.available).1 = reader.unread := take_length
    have hunread : ((reclaimReceiveBuffer codec.decodeBuf (16 * 1024)).writeSync grow
        (codec.decryptor.process (reader.readSync reader.available).1).1).unread =
        (PacketCodec.obfuscated codec).clear reader.unread := by
      rw [Bytes.unread_writeSync, unread_reclaimReceiveBuffer, htake]
      rfl
    refine ⟨rfl, drop_length, hunread, fun later => ?_⟩
    refine (congrArg (fun bytes => bytes ++ _) hunread).trans ?_
    unfold PacketCodec.clear
    simp only [htake, AesCtr.process, applyKeystream_append, append_assoc]
  · rw [if_neg h]
    have hnil : reader.unread = [] := eq_nil_of_length_eq_zero (Nat.eq_zero_of_not_pos h)
    refine ⟨rfl, hnil, ?_, fun later => ?_⟩
    · rw [hnil]
      exact (append_nil _).symm
    · rw [hnil, nil_append]

theorem ServerObfuscatedCodec.finishDecode_spec (codec : ServerObfuscatedCodec) (frame : Option (List UInt8))
    (decodeBuf : Bytes) : (codec.finishDecode frame decodeBuf).inner = codec.inner ∧
      (codec.finishDecode frame decodeBuf).decryptor = codec.decryptor ∧
      (codec.finishDecode frame decodeBuf).decodeBuf.unread = decodeBuf.unread := by
  unfold finishDecode
  split
  · exact ⟨rfl, rfl, unread_reclaimReceiveBuffer _ _⟩
  · exact ⟨rfl, rfl, rfl⟩

/-- **A decoding takes what the decoder finds in the clear bytes.** -/
theorem PacketCodec.decodes (h : mtcute.Stable) (grow : Nat → Nat → Nat) (codec : PacketCodec)
    (reader : Bytes) : Decodes mtcute codec reader (codec.decode mtcute grow reader false) := by
  cases codec with
  | plain codec =>
    unfold PacketCodec.decode
    simp only
    rw [InnerCodec.decode_eq]
    unfold mtcuteDecode
    rw [if_neg Bool.false_ne_true]
    split
    · rename_i hfind
      exact .incomplete hfind ⟨rfl, fun _ => rfl⟩
    · rename_i data size hfind
      refine .frame hfind ⟨rfl, fun later => ?_⟩
      have hsize := ((codec.stable_find h).size _ _ _ hfind).2
      exact (drop_append_of_le_length hsize).symm
    · rename_i hfind
      exact .fails hfind rfl
  | obfuscated codec =>
    obtain ⟨hinner, hreader, hunread, hclear⟩ := codec.decipher_spec grow reader
    unfold PacketCodec.decode ServerObfuscatedCodec.decode
    simp only [if_neg Bool.false_ne_true]
    rw [InnerCodec.decode_eq, hinner]
    unfold mtcuteDecode
    rw [if_neg Bool.false_ne_true, hunread]
    -- the reader is empty, so what comes later meets the deciphered bytes
    have hleaves : ∀ (frame : Option (List UInt8)) (decodeBuf : Bytes) (size : Nat),
        size ≤ ((PacketCodec.obfuscated codec).clear reader.unread).length →
        decodeBuf.unread = ((PacketCodec.obfuscated codec).clear reader.unread).drop size →
        Leaves (.obfuscated codec) (.obfuscated ((codec.decipher grow reader).1.finishDecode frame decodeBuf)) reader
          (codec.decipher grow reader).2 size := fun frame decodeBuf size hsize hbuf => by
      obtain ⟨hinner', hdecryptor, hunread'⟩ := (codec.decipher grow reader).1.finishDecode_spec frame decodeBuf
      refine ⟨congrArg Transport.obfuscated (hinner'.trans hinner), fun later => ?_⟩
      rw [← hclear later, hreader, nil_append]
      unfold PacketCodec.clear
      simp only
      rw [hunread', hbuf, hdecryptor, hunread, drop_append_of_le_length hsize]
    cases hfind : codec.inner.find mtcute ((PacketCodec.obfuscated codec).clear reader.unread) with
    | incomplete => exact .incomplete hfind (hleaves none _ 0 (Nat.zero_le _) hunread)
    | frame data size =>
      have hsize := ((codec.inner.stable_find h).size _ _ _ hfind).2
      refine .frame hfind (hleaves (some data) _ size hsize ?_)
      rw [Bytes.unread_readSync, hunread]
    | fails => exact .fails hfind rfl

/-! ## Whole streams -/

/-- The inner loop of `_drainSocketData`: frames are decoded until one is incomplete. -/
def PacketCodec.decodeFrames (mtcute : MtcuteCodecs) (grow : Nat → Nat → Nat) :
    Nat → PacketCodec → Bytes → List (List UInt8)
  | 0,     _,     _      => []
  | n + 1, codec, reader =>
    match codec.decode mtcute grow reader false with
    | (.ok (some frame), codec, reader) => frame :: decodeFrames mtcute grow n codec reader
    | _ => []

theorem PacketCodec.find_congr {codec codec' : PacketCodec}
    (h : codec'.transport = codec.transport) : codec'.find mtcute = codec.find mtcute := by
  refine congrArg (InnerCodec.find mtcute) ?_
  cases codec with
  | plain codec =>
    cases codec' with
    | plain codec' => exact Transport.plain.inj h
    | obfuscated codec' => cases h
  | obfuscated codec =>
    cases codec' with
    | plain codec' => cases h
    | obfuscated codec' => exact Transport.obfuscated.inj h

theorem PacketCodec.decodeFrames_eq (h : mtcute.Stable) (grow : Nat → Nat → Nat) :
    ∀ (n : Nat) (codec : PacketCodec) (reader : Bytes), decodeFrames mtcute grow n codec reader =
      Framing.framesWithin (codec.find mtcute) n (codec.clear reader.unread)
  | 0,     _,     _      => rfl
  | n + 1, codec, reader => by
    rw [decodeFrames, Framing.framesWithin]
    have hdecodes := codec.decodes h grow reader
    generalize codec.decode mtcute grow reader false = result at hdecodes
    cases hdecodes with
    | incomplete hfind _ => rw [hfind]
    | frame hfind hleaves =>
      rename_i data size codec' reader'
      have hclear := hleaves.clear []
      rw [append_nil, append_nil] at hclear
      rw [hfind]
      simp only
      rw [decodeFrames_eq h grow n codec' reader', hclear, find_congr hleaves.transport]
    | fails hfind _ => rw [hfind]

def ServerObfuscatedCodec.encodeFrames (innerEncode : List UInt8 → List UInt8) :
    ServerObfuscatedCodec → List (List UInt8) → List UInt8
  | _,     []              => []
  | codec, frame :: frames =>
    let (encrypted, codec) := codec.encode innerEncode frame
    encrypted ++ encodeFrames innerEncode codec frames

theorem ServerObfuscatedCodec.encodeFrames_eq (innerEncode : List UInt8 → List UInt8) :
    ∀ (codec : ServerObfuscatedCodec) (frames : List (List UInt8)), codec.encodeFrames innerEncode frames =
      applyKeystream codec.encryptor.keystream codec.encryptor.position (frames.flatMap innerEncode)
  | _,     []              => rfl
  | codec, frame :: frames => by
    rw [encodeFrames, flatMap_cons, applyKeystream_append]
    unfold encode
    simp only
    rw [encodeFrames_eq innerEncode _ frames]
    rfl

/-- **Encoding and decoding under the abridged codec** give the frames back. -/
theorem decodeFrames_abridged (h : mtcute.Stable) (grow : Nat → Nat → Nat)
    {frames : List (List UInt8)} (hframes : ∀ frame ∈ frames, frame.length % 4 = 0 ∧ frame.length < 0x4000000)
    {reader : Bytes} (hreader : reader.unread = frames.flatMap AbridgedPacketCodec.encode) {n : Nat}
    (hn : reader.available ≤ n) : PacketCodec.decodeFrames mtcute grow n (.plain .abridged) reader = frames := by
  rw [PacketCodec.decodeFrames_eq h]
  refine (Framing.framesWithin_eq AbridgedPacketCodec.stable_find hn).trans ?_
  show Framing.frames AbridgedPacketCodec.find reader.unread = frames
  rw [hreader]
  exact Framing.frames_encode AbridgedPacketCodec.stable_find rfl (fun frame hf rest =>
    AbridgedPacketCodec.find_encode (hframes frame hf).1 (hframes frame hf).2 rest)

/-- **Encoding and decoding under obfuscation** give the frames back to the peer. -/
theorem decodeFrames_obfuscated (h : mtcute.Stable) (grow : Nat → Nat → Nat)
    {frames : List (List UInt8)} (hframes : ∀ frame ∈ frames, frame.length % 4 = 0 ∧ frame.length < 0x4000000)
    {sender receiver : ServerObfuscatedCodec} (hinner : receiver.inner = .abridged)
    (hkey : receiver.decryptor = sender.encryptor) (hbuf : receiver.decodeBuf.unread = []) {reader : Bytes}
    (hreader : reader.unread = sender.encodeFrames AbridgedPacketCodec.encode frames) {n : Nat}
    (hn : reader.available ≤ n) : PacketCodec.decodeFrames mtcute grow n (.obfuscated receiver) reader = frames := by
  have hclear : (PacketCodec.obfuscated receiver).clear reader.unread = frames.flatMap AbridgedPacketCodec.encode := by
    unfold PacketCodec.clear
    simp only
    rw [hreader, sender.encodeFrames_eq, hkey, hbuf, nil_append, applyKeystream_self]
  have hfind : (PacketCodec.obfuscated receiver).find mtcute = AbridgedPacketCodec.find := by
    show receiver.inner.find mtcute = AbridgedPacketCodec.find
    rw [hinner]
    rfl
  have hlength : (frames.flatMap AbridgedPacketCodec.encode).length ≤ n := by
    rw [← hclear, PacketCodec.length_clear]
    unfold PacketCodec.clear
    simp only [hbuf, applyKeystream, append_nil, length_nil, Nat.zero_add]
    exact hn
  rw [PacketCodec.decodeFrames_eq h, hfind, hclear, Framing.framesWithin_eq AbridgedPacketCodec.stable_find hlength]
  exact Framing.frames_encode AbridgedPacketCodec.stable_find rfl (fun frame hf rest =>
    AbridgedPacketCodec.find_encode (hframes frame hf).1 (hframes frame hf).2 rest)

end Crossgram
