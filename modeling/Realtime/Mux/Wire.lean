import Mathlib.Data.Nat.Bitwise
import Realtime.Lib.Leb128

/-!
# The multiplex wire format

Two independently written codecs share one socket: the server's
(`server/src/dmux.rs`, with `read_varint` from `server/src/crdt.rs`) and the
client's (`src/sync/mux.ts`, over lib0's encoding and decoding). Both are
translated here function by function, each with its own constants.

Integers on the wire are LEB128. The server reads them as `u64` and refuses
anything larger; the client reads them as JavaScript numbers, exact below
`2^53`. Strings are UTF-8 with a length in front.
-/

namespace Realtime.Mux

open Lib

/-- A byte string: a Rust `Vec<u8>` or a JavaScript `Uint8Array`. -/
abbrev Bytes := List UInt8

/-- The UTF-8 form of a string. -/
def utf8 (s : String) : Bytes := s.toUTF8.data.toList

/-- The string with the given UTF-8 form, if there is one. -/
def fromUtf8 (bytes : Bytes) : Option String := String.fromUTF8? ⟨bytes.toArray⟩

@[simp] theorem length_utf8 (s : String) : (utf8 s).length = s.utf8ByteSize := rfl

@[simp] theorem fromUtf8_utf8 (s : String) : fromUtf8 (utf8 s) = some s := by
  have hvalid : (⟨s.toByteArray.data⟩ : ByteArray).IsValidUTF8 := s.isValidUTF8
  simp [fromUtf8, utf8, String.fromUTF8?, String.fromUTF8, hvalid]

theorem toNat_shiftRight_seven (n : UInt64) : (n >>> 7).toNat = n.toNat / 128 := by
  simp [UInt64.toNat_shiftRight, Nat.shiftRight_eq_div_pow]

/-! ## Server side -/

namespace Server

def frameOpen : UInt64 := 1
def frameOpenOk : UInt64 := 2
def frameOpenErr : UInt64 := 3
def frameData : UInt64 := 4
def frameClose : UInt64 := 5
def framePing : UInt64 := 6
def framePong : UInt64 := 7
def framePart : UInt64 := 8
def frameChunked : UInt64 := 9

/-- Channel id reserved for connection-level control frames. -/
def controlChannel : UInt64 := 0

/-- Bound on an OPEN frame's path. -/
def maxOpenPathBytes : Nat := 4096

/-- Bound on the payload of one DATA or PART frame (`crdt::MAX_UPDATE_BYTES`). -/
def maxDataFrameBytes : Nat := 64 * 1024 * 1024

inductive Frame where
  | openChannel (channel : UInt64) (pathAndQuery : String)
  | data (channel : UInt64) (payload : Bytes)
  /-- A non-final piece of a payload that a DATA frame completes. -/
  | part (channel : UInt64) (payload : Bytes)
  | oversizedData (channel : UInt64)
  | close (channel : UInt64)
  | ping
  deriving DecidableEq

/-- The loop of `read_varint`: `result` holds the bits below `shift`. -/
def readVarintLoop (result : UInt64) (shift : Nat) : Bytes → Option (UInt64 × Bytes)
  | [] => none
  | byte :: rest =>
      let value := (byte &&& 0x7f).toUInt64
      if shift = 63 ∧ value > 1 then none
      else
        let result := result ||| (value <<< UInt64.ofNat shift)
        if byte &&& 0x80 = 0 then some (result, rest)
        else if shift = 63 then none
        else readVarintLoop result (shift + 7) rest

/-- Read one var-uint from the front of `buf`. -/
def readVarint (buf : Bytes) : Option (UInt64 × Bytes) :=
  readVarintLoop 0 0 buf

/-- Append a var-uint: the bytes `write_varint` pushes for `n`. -/
def writeVarint (n : UInt64) : Bytes :=
  let byte := (n &&& 0x7f).toUInt8
  let n' := n >>> 7
  if h : n' = 0 then [byte] else (byte ||| 0x80) :: writeVarint n'
termination_by n.toNat
decreasing_by
  have hne : n'.toNat ≠ 0 := fun h0 => h (UInt64.toNat_inj.mp (by simpa using h0))
  have hdiv : n'.toNat = n.toNat / 128 := toNat_shiftRight_seven n
  change n'.toNat < n.toNat
  omega

/-- The `match` of `parse_frame`: what a frame of the given type holds after
its channel. -/
def parseBody (frameType channel : UInt64) (rest : Bytes) : Option Frame :=
  if frameType = frameOpen then do
    let (len, rest) ← readVarint rest
    if len.toNat > maxOpenPathBytes ∨ rest.length ≠ len.toNat then none
    else
      let pathAndQuery ← fromUtf8 rest
      some (.openChannel channel pathAndQuery)
  else if frameType = frameData ∨ frameType = framePart then
    if rest.length > maxDataFrameBytes then some (.oversizedData channel)
    else if frameType = frameData then some (.data channel rest)
    else some (.part channel rest)
  else if frameType = frameClose ∧ rest = [] then some (.close channel)
  else if frameType = framePing ∧ channel = controlChannel ∧ rest = [] then some .ping
  else none

def parseFrame (buf : Bytes) : Option Frame := do
  let (frameType, rest) ← readVarint buf
  let (channel, rest) ← readVarint rest
  parseBody frameType channel rest

/-- A frame with just a type and a channel id. -/
def encodeSimple (frameType channel : UInt64) : Bytes :=
  writeVarint frameType ++ writeVarint channel

/-- OPEN_ERR with its reason code. -/
def encodeOpenErr (channel reason : UInt64) : Bytes :=
  encodeSimple frameOpenErr channel ++ writeVarint reason

/-- A DATA or PART frame carrying `payload`. -/
def encodePayload (frameType channel : UInt64) (payload : Bytes) : Bytes :=
  writeVarint frameType ++ writeVarint channel ++ payload

def encodeData (channel : UInt64) (payload : Bytes) : Bytes :=
  encodePayload frameData channel payload

end Server

/-! ## Client side -/

namespace Client

/-- `Number.MAX_SAFE_INTEGER`. -/
def maxSafeInteger : Nat := 2 ^ 53 - 1

/-- lib0 `writeVarUint`. -/
def writeVarUint (num : Nat) : Bytes := Leb128.encode num

/-- lib0 `readVarUint`: the decoder's remaining bytes, the number read so far
and the weight of the next byte. Running off the end or past the largest exact
integer throws. -/
def readVarUintLoop (num mult : Nat) : Bytes → Option (Nat × Bytes)
  | [] => none
  | r :: rest =>
      let num := num + r.toNat % 128 * mult
      if r.toNat < 128 then some (num, rest)
      else if num > maxSafeInteger then none
      else readVarUintLoop num (mult * 128) rest

def readVarUint (dec : Bytes) : Option (Nat × Bytes) := readVarUintLoop 0 1 dec

/-- lib0 `writeVarString`. -/
def writeVarString (s : String) : Bytes := writeVarUint (utf8 s).length ++ utf8 s

/-- lib0 `readVarString`: a length, then that many bytes of UTF-8. -/
def readVarString (dec : Bytes) : Option (String × Bytes) := do
  let (len, rest) ← readVarUint dec
  if rest.length < len then none
  else
    let s ← fromUtf8 (rest.take len)
    some (s, rest.drop len)

def frameOpen : Nat := 1
def frameOpenOk : Nat := 2
def frameOpenErr : Nat := 3
def frameData : Nat := 4
def frameClose : Nat := 5
def framePing : Nat := 6
def framePong : Nat := 7
def framePart : Nat := 8
def frameChunked : Nat := 9

/-- Reason of an OPEN_ERR whose server sent none. -/
def openErrUnspecified : Nat := 0

/-- Channel id reserved for control frames that are not tied to a channel. -/
def controlChannel : Nat := 0

def encodeOpen (channelId : Nat) (pathAndQuery : String) : Bytes :=
  writeVarUint frameOpen ++ writeVarUint channelId ++ writeVarString pathAndQuery

/-- A DATA frame, or with `final` false a PART frame that more of the payload
follows. -/
def encodeData (channelId : Nat) (payload : Bytes) (final : Bool) : Bytes :=
  writeVarUint (if final then frameData else framePart) ++ writeVarUint channelId ++ payload

def encodeClose (channelId : Nat) : Bytes :=
  writeVarUint frameClose ++ writeVarUint channelId

def encodePing : Bytes := writeVarUint framePing ++ writeVarUint controlChannel

inductive DecodedFrame where
  | openChannel (channelId : Nat) (pathAndQuery : String)
  | openOk (channelId : Nat)
  | openErr (channelId : Nat) (reason : Nat)
  | data (channelId : Nat) (payload : Bytes)
  | part (channelId : Nat) (payload : Bytes)
  | close (channelId : Nat)
  | ping
  | pong
  | chunked
  deriving DecidableEq

/-- The `switch` of `decodeFrame`: what a frame of the given type holds after
its channel. -/
def decodeBody (type channelId : Nat) (dec : Bytes) : Option DecodedFrame :=
  if type = frameOpen then do
    let (pathAndQuery, _) ← readVarString dec
    some (.openChannel channelId pathAndQuery)
  else if type = frameOpenOk then some (.openOk channelId)
  else if type = frameOpenErr then
    if dec = [] then some (.openErr channelId openErrUnspecified)
    else do
      let (reason, _) ← readVarUint dec
      some (.openErr channelId reason)
  else if type = frameData then some (.data channelId dec)
  else if type = framePart then some (.part channelId dec)
  else if type = frameClose then some (.close channelId)
  else if type = framePing then some .ping
  else if type = framePong then some .pong
  else if type = frameChunked then
    if channelId = controlChannel then some .chunked else none
  else none

/-- `none` is both a `null` result and a caught decoding error. -/
def decodeFrame (buf : Bytes) : Option DecodedFrame := do
  let (type, dec) ← readVarUint buf
  let (channelId, dec) ← readVarUint dec
  decodeBody type channelId dec

end Client

/-! ## Var-uints

Both writers produce the LEB128 encoding. The server's reader keeps seven bits
a byte in a `u64`; `toNat_accumulate` is the step that shows no bit is lost
while the shift stays below 64. -/

theorem toNat_low_seven (n : UInt64) : (n &&& 0x7f).toUInt8.toNat = n.toNat % 128 := by
  rw [UInt64.toNat_toUInt8, UInt64.toNat_and, show (0x7f : UInt64).toNat = 2 ^ 7 - 1 from rfl,
    Nat.and_two_pow_sub_one_eq_mod]
  omega

theorem toNat_set_high {b : UInt8} (h : b.toNat < 128) : (b ||| 0x80).toNat = 128 + b.toNat := by
  rw [UInt8.toNat_or, show (0x80 : UInt8).toNat = 2 ^ 7 * 1 from rfl, Nat.or_comm,
    ← Nat.two_pow_add_eq_or_of_lt h]

theorem toNat_payload (b : UInt8) : (b &&& 0x7f).toUInt64.toNat = b.toNat % 128 := by
  rw [UInt8.toNat_toUInt64, UInt8.toNat_and, show (0x7f : UInt8).toNat = 2 ^ 7 - 1 from rfl,
    Nat.and_two_pow_sub_one_eq_mod]

theorem high_clear_iff (b : UInt8) : b &&& 0x80 = 0 ↔ b.toNat < 128 := by
  have hlt := b.toNat_lt
  rw [← UInt8.toNat_inj, UInt8.toNat_and, show (0x80 : UInt8).toNat = 2 ^ 7 from rfl,
    Nat.and_two_pow, Nat.testBit_eq_decide_div_mod_eq]
  simp
  omega

theorem writeVarint_eq_encode (n : UInt64) : Server.writeVarint n = Leb128.encode n.toNat := by
  induction hn : n.toNat using Nat.strong_induction_on generalizing n with
  | _ m ih =>
      subst hn
      rw [Server.writeVarint]
      have hlow := toNat_low_seven n
      have hshift := toNat_shiftRight_seven n
      by_cases hz : n >>> 7 = 0
      · have hlt : n.toNat < 128 := by
          rw [hz] at hshift
          simp at hshift
          omega
        rw [dif_pos hz, Leb128.encode_small hlt]
        congr 1
        apply UInt8.toNat_inj.mp
        rw [hlow, Leb128.toNat_last hlt]
        omega
      · have hge : 128 ≤ n.toNat := by
          by_contra hlt
          exact hz (UInt64.toNat_inj.mp (by rw [hshift]; simp; omega))
        rw [dif_neg hz, Leb128.encode_large hge,
          ih (n >>> 7).toNat (by omega) (n >>> 7) rfl, hshift]
        congr 1
        apply UInt8.toNat_inj.mp
        rw [toNat_set_high (by omega), hlow, Leb128.toNat_more]

/-- OR-ing a payload in at its shift adds it: the accumulator only holds lower
bits, and the tenth byte contributes at most one bit. -/
theorem toNat_accumulate {result v : UInt64} {k : Nat} (hk : k ≤ 9)
    (hres : result.toNat < 2 ^ (7 * k)) (hfit : v.toNat * 2 ^ (7 * k) < 2 ^ 64) :
    (result ||| (v <<< UInt64.ofNat (7 * k))).toNat = result.toNat + v.toNat * 2 ^ (7 * k) := by
  have hsh : (v <<< UInt64.ofNat (7 * k)).toNat = v.toNat * 2 ^ (7 * k) := by
    rw [UInt64.toNat_shiftLeft, UInt64.toNat_ofNat', Nat.shiftLeft_eq,
      Nat.mod_eq_of_lt (by omega : 7 * k < 2 ^ 64), Nat.mod_eq_of_lt (by omega : 7 * k < 64),
      Nat.mod_eq_of_lt hfit]
  rw [UInt64.toNat_or, hsh, Nat.or_comm, Nat.mul_comm, ← Nat.two_pow_add_eq_or_of_lt hres]
  omega

/-- One round of the read loop. -/
theorem readVarintLoop_cons (result : UInt64) (shift : Nat) (byte : UInt8) (rest : Bytes) :
    Server.readVarintLoop result shift (byte :: rest) =
      if shift = 63 ∧ (byte &&& 0x7f).toUInt64 > 1 then none
      else if byte &&& 0x80 = 0 then
        some (result ||| ((byte &&& 0x7f).toUInt64 <<< UInt64.ofNat shift), rest)
      else if shift = 63 then none
      else Server.readVarintLoop (result ||| ((byte &&& 0x7f).toUInt64 <<< UInt64.ofNat shift))
        (shift + 7) rest := rfl

/-- The server reads back a LEB128 number that fits in the bits above the ones
already read. -/
theorem readVarintLoop_encode (rest : Bytes) (m : Nat) : ∀ (result : UInt64) (k : Nat),
    k ≤ 9 → result.toNat < 2 ^ (7 * k) → m * 2 ^ (7 * k) < 2 ^ 64 →
    ∃ n : UInt64, Server.readVarintLoop result (7 * k) (Leb128.encode m ++ rest) = some (n, rest) ∧
      n.toNat = result.toNat + m * 2 ^ (7 * k) := by
  induction m using Leb128.digit_induction with
  | small m hm =>
      intro result k hk hres hfit
      have hv : ((UInt8.ofNat m) &&& 0x7f).toUInt64.toNat = m := by
        rw [toNat_payload, Leb128.toNat_last hm]
        omega
      have hclear : (UInt8.ofNat m) &&& 0x80 = 0 :=
        (high_clear_iff _).mpr (by rw [Leb128.toNat_last hm]; exact hm)
      have hone : ¬ (7 * k = 63 ∧ ((UInt8.ofNat m) &&& 0x7f).toUInt64 > 1) := by
        rintro ⟨h63, hgt⟩
        rw [h63] at hfit
        have : 1 < m := by
          have := UInt64.lt_iff_toNat_lt.mp hgt
          rwa [hv] at this
        omega
      have hacc := toNat_accumulate hk hres (by rw [hv]; exact hfit)
      rw [hv] at hacc
      refine ⟨_, ?_, hacc⟩
      rw [Leb128.encode_small hm, List.singleton_append, readVarintLoop_cons, if_neg hone,
        if_pos hclear]
  | large m hm ih =>
      intro result k hk hres hfit
      have hpow : 2 ^ (7 * (k + 1)) = 2 ^ (7 * k) * 128 := by
        rw [Nat.mul_add, Nat.pow_add]
      have hk8 : k < 9 := by
        by_contra hk9
        have hkeq : k = 9 := by omega
        rw [hkeq] at hfit
        omega
      have hv : ((UInt8.ofNat (128 + m % 128)) &&& 0x7f).toUInt64.toNat = m % 128 := by
        rw [toNat_payload, Leb128.toNat_more]
        omega
      have hset : ¬ (UInt8.ofNat (128 + m % 128)) &&& 0x80 = 0 := by
        rw [high_clear_iff, Leb128.toNat_more]
        omega
      have hpart : m % 128 * 2 ^ (7 * k) < 2 ^ 64 :=
        lt_of_le_of_lt (Nat.mul_le_mul_right _ (Nat.mod_le _ _)) hfit
      have hacc := toNat_accumulate hk hres (v := ((UInt8.ofNat (128 + m % 128)) &&& 0x7f).toUInt64)
        (by rw [hv]; exact hpart)
      rw [hv] at hacc
      have hsplit : m / 128 * 2 ^ (7 * (k + 1)) + m % 128 * 2 ^ (7 * k) = m * 2 ^ (7 * k) := by
        rw [hpow, ← Nat.mul_assoc, Nat.mul_right_comm, ← Nat.add_mul, Nat.div_add_mod']
      have hbelow : m % 128 * 2 ^ (7 * k) ≤ 127 * 2 ^ (7 * k) :=
        Nat.mul_le_mul_right _ (by omega)
      obtain ⟨n, hread, hval⟩ := ih _ (k + 1) (by omega) (by rw [hacc, hpow]; omega) (by omega)
      refine ⟨n, ?_, by rw [hval, hacc]; omega⟩
      rw [Leb128.encode_large hm, List.cons_append, readVarintLoop_cons,
        if_neg (by rintro ⟨h63, -⟩; omega), if_neg hset, if_neg (by omega)]
      exact hread

/-- Whatever the server accepts is the number the bytes spell, never a
truncation of it. -/
theorem decode_of_readVarintLoop {buf rest : Bytes} {n : UInt64} : ∀ {result : UInt64} {k : Nat},
    k ≤ 9 → result.toNat < 2 ^ (7 * k) →
    Server.readVarintLoop result (7 * k) buf = some (n, rest) →
    ∃ m, Leb128.decode buf = some (m, rest) ∧ n.toNat = result.toNat + m * 2 ^ (7 * k) := by
  induction buf with
  | nil => intro result k _ _ h; simp [Server.readVarintLoop] at h
  | cons byte tail ih =>
      intro result k hk hres h
      have hv := toNat_payload byte
      have hpow : 2 ^ (7 * (k + 1)) = 2 ^ (7 * k) * 128 := by
        rw [Nat.mul_add, Nat.pow_add]
      rw [readVarintLoop_cons] at h
      split at h
      · cases h
      · rename_i hone
        -- The tenth byte carries at most one bit; every earlier one fits whole.
        have hfit : (byte &&& 0x7f).toUInt64.toNat * 2 ^ (7 * k) < 2 ^ 64 := by
          by_cases h63 : 7 * k = 63
          · have hle : (byte &&& 0x7f).toUInt64.toNat ≤ 1 := by
              by_contra hgt
              exact hone ⟨h63, UInt64.lt_iff_toNat_lt.mpr (by simpa using hgt)⟩
            rw [h63]
            omega
          · have hle : 2 ^ (7 * k) ≤ 2 ^ 56 := Nat.pow_le_pow_right (by omega) (by omega)
            have hsmall : (byte &&& 0x7f).toUInt64.toNat ≤ 127 := by omega
            calc (byte &&& 0x7f).toUInt64.toNat * 2 ^ (7 * k)
                ≤ 127 * 2 ^ 56 := Nat.mul_le_mul hsmall hle
              _ < 2 ^ 64 := by norm_num
        have hacc := toNat_accumulate hk hres hfit
        rw [hv] at hacc
        split at h
        · rename_i hclear
          obtain ⟨rfl, rfl⟩ := Prod.mk.inj (Option.some.inj h)
          have hlt := (high_clear_iff byte).mp hclear
          exact ⟨byte.toNat, Leb128.decode_cons_small hlt, by
            rw [hacc, Nat.mod_eq_of_lt hlt]⟩
        · rename_i hset
          split at h
          · cases h
          · rename_i h63
            have hge : 128 ≤ byte.toNat := by
              by_contra hlt
              exact hset ((high_clear_iff byte).mpr (by omega))
            have hbelow : byte.toNat % 128 * 2 ^ (7 * k) ≤ 127 * 2 ^ (7 * k) :=
              Nat.mul_le_mul_right _ (by omega)
            obtain ⟨m, hdec, hval⟩ := ih (k := k + 1) (by omega) (by rw [hacc, hpow]; omega) h
            refine ⟨_, Leb128.decode_cons_large hge hdec, ?_⟩
            rw [hval, hacc, hpow]
            ring

@[simp] theorem readVarint_writeVarint (n : UInt64) (rest : Bytes) :
    Server.readVarint (Server.writeVarint n ++ rest) = some (n, rest) := by
  obtain ⟨m, hread, hval⟩ := readVarintLoop_encode rest n.toNat 0 0 (by omega) (by simp)
    (by simpa using n.toNat_lt)
  have hmn : m = n := UInt64.toNat_inj.mp (by simpa using hval)
  rw [writeVarint_eq_encode, ← hmn]
  rw [hmn] at hread ⊢
  exact hread

theorem decode_of_readVarint {buf rest : Bytes} {n : UInt64}
    (h : Server.readVarint buf = some (n, rest)) :
    Leb128.decode buf = some (n.toNat, rest) := by
  obtain ⟨m, hdec, hval⟩ := decode_of_readVarintLoop (k := 0) (by omega) (by simp) h
  rw [hdec, hval]
  simp

theorem readVarint_eq_none {buf rest : Bytes} {m : Nat} (h : Leb128.decode buf = some (m, rest))
    (hbig : 2 ^ 64 ≤ m) : Server.readVarint buf = none := by
  cases hread : Server.readVarint buf with
  | none => rfl
  | some p =>
      have hdec : Leb128.decode buf = some (p.1.toNat, p.2) := decode_of_readVarint hread
      rw [h] at hdec
      have hval := (Prod.mk.inj (Option.some.inj hdec)).1
      have := p.1.toNat_lt
      omega

/-- The server reads what the client writes: lib0 emits the same LEB128 bytes. -/
theorem readVarint_writeVarUint (n : UInt64) (rest : Bytes) :
    Server.readVarint (Client.writeVarUint n.toNat ++ rest) = some (n, rest) := by
  rw [Client.writeVarUint, ← writeVarint_eq_encode]
  exact readVarint_writeVarint n rest

/-- The client reads back a LEB128 number as long as the total stays exact. -/
theorem readVarUintLoop_encode (rest : Bytes) (m : Nat) : ∀ (num mult : Nat), 0 < mult →
    num + m * mult ≤ Client.maxSafeInteger →
    Client.readVarUintLoop num mult (Leb128.encode m ++ rest) = some (num + m * mult, rest) := by
  induction m using Leb128.digit_induction with
  | small m hm =>
      intro num mult _ _
      rw [Leb128.encode_small hm, List.singleton_append, Client.readVarUintLoop,
        Leb128.toNat_last hm, if_pos hm, Nat.mod_eq_of_lt hm]
  | large m hm ih =>
      intro num mult hpos hsafe
      have hsplit : m % 128 * mult + m / 128 * (mult * 128) = m * mult := by
        rw [Nat.mul_comm mult, ← Nat.mul_assoc, ← Nat.add_mul, Nat.mod_add_div']
      have hlow : (128 + m % 128) % 128 = m % 128 := by omega
      rw [Leb128.encode_large hm, List.cons_append, Client.readVarUintLoop, Leb128.toNat_more,
        if_neg (by omega), hlow, if_neg (by omega), ih _ _ (by omega) (by omega)]
      congr 2
      omega

theorem readVarUint_writeVarint {n : UInt64} (hn : n.toNat < 2 ^ 53) (rest : Bytes) :
    Client.readVarUint (Server.writeVarint n ++ rest) = some (n.toNat, rest) := by
  rw [writeVarint_eq_encode, Client.readVarUint,
    readVarUintLoop_encode rest n.toNat 0 1 (by omega) (by unfold Client.maxSafeInteger; omega)]
  simp

/-! ## Frames from the client to the server -/

/-- The server finds the type and the channel the client wrote. -/
theorem parseFrame_header (frameType channel : UInt64) (body : Bytes) :
    Server.parseFrame (Client.writeVarUint frameType.toNat ++ Client.writeVarUint channel.toNat ++
      body) = Server.parseBody frameType channel body := by
  rw [List.append_assoc, Server.parseFrame, readVarint_writeVarUint]
  simp only [Option.bind_eq_bind, Option.bind_some, readVarint_writeVarUint]

theorem parseFrame_encodeOpen (channel : UInt64) {path : String}
    (hpath : (utf8 path).length ≤ Server.maxOpenPathBytes) :
    Server.parseFrame (Client.encodeOpen channel.toNat path) =
      some (.openChannel channel path) := by
  have hlen : (utf8 path).length < 2 ^ 64 := lt_of_le_of_lt hpath (by decide)
  have hsize := readVarint_writeVarUint (UInt64.ofNat (utf8 path).length) (utf8 path)
  rw [UInt64.toNat_ofNat_of_lt' hlen] at hsize
  have hbound : ¬ ((utf8 path).length > Server.maxOpenPathBytes ∨
      (utf8 path).length ≠ (utf8 path).length) := by omega
  refine (parseFrame_header Server.frameOpen channel _).trans ?_
  rw [Server.parseBody, if_pos rfl, Client.writeVarString, hsize]
  simp only [Option.bind_eq_bind, Option.bind_some, UInt64.toNat_ofNat_of_lt' hlen, if_neg hbound,
    fromUtf8_utf8]

/-- A client payload frame arrives with its channel, its kind and its bytes,
or is reported as oversized. -/
theorem parseFrame_encodeData (channel : UInt64) (payload : Bytes) (final : Bool) :
    Server.parseFrame (Client.encodeData channel.toNat payload final) =
      some (if payload.length > Server.maxDataFrameBytes then .oversizedData channel
        else if final then .data channel payload else .part channel payload) := by
  cases final with
  | true =>
      refine (parseFrame_header Server.frameData channel payload).trans ?_
      rw [Server.parseBody, if_neg (by decide), if_pos (.inl rfl)]
      split <;> simp
  | false =>
      refine (parseFrame_header Server.framePart channel payload).trans ?_
      rw [Server.parseBody, if_neg (by decide), if_pos (.inr rfl)]
      split
      · rfl
      · rw [if_neg (by decide)]
        rfl

theorem parseFrame_encodeClose (channel : UInt64) :
    Server.parseFrame (Client.encodeClose channel.toNat) = some (.close channel) := by
  rw [Client.encodeClose, ← List.append_nil (_ ++ _)]
  refine (parseFrame_header Server.frameClose channel []).trans ?_
  rw [Server.parseBody, if_neg (by decide), if_neg (by decide), if_pos ⟨rfl, rfl⟩]

theorem parseFrame_encodePing : Server.parseFrame Client.encodePing = some .ping := by
  rw [Client.encodePing, ← List.append_nil (_ ++ _)]
  refine (parseFrame_header Server.framePing Server.controlChannel []).trans ?_
  rw [Server.parseBody, if_neg (by decide), if_neg (by decide), if_neg (by decide),
    if_pos ⟨rfl, rfl, rfl⟩]

/-! ## Frames from the server to the client -/

/-- The client finds the type and the channel the server wrote. -/
theorem decodeFrame_header {frameType channel : UInt64} (ht : frameType.toNat < 2 ^ 53)
    (hc : channel.toNat < 2 ^ 53) (body : Bytes) :
    Client.decodeFrame (Server.writeVarint frameType ++ Server.writeVarint channel ++ body) =
      Client.decodeBody frameType.toNat channel.toNat body := by
  rw [List.append_assoc, Client.decodeFrame, readVarUint_writeVarint ht]
  simp only [Option.bind_eq_bind, Option.bind_some, readVarUint_writeVarint hc]

theorem decodeFrame_encodeSimple {frameType channel : UInt64} (ht : frameType.toNat < 2 ^ 53)
    (hc : channel.toNat < 2 ^ 53) :
    Client.decodeFrame (Server.encodeSimple frameType channel) =
      Client.decodeBody frameType.toNat channel.toNat [] := by
  rw [Server.encodeSimple, ← List.append_nil (_ ++ _)]
  exact decodeFrame_header ht hc []

theorem decodeFrame_encodeOpenErr {channel reason : UInt64} (hc : channel.toNat < 2 ^ 53)
    (hr : reason.toNat < 2 ^ 53) :
    Client.decodeFrame (Server.encodeOpenErr channel reason) =
      some (.openErr channel.toNat reason.toNat) := by
  have hread := readVarUint_writeVarint hr []
  rw [List.append_nil] at hread
  -- The reason is never empty on the wire, so it is not taken for an older server's frame.
  have hne : Server.writeVarint reason ≠ [] := by
    intro hnil
    rw [hnil] at hread
    simp [Client.readVarUint, Client.readVarUintLoop] at hread
  have hkind : Server.frameOpenErr.toNat < 2 ^ 53 := by decide
  refine (decodeFrame_header hkind hc _).trans ?_
  change (if Server.writeVarint reason = [] then _ else _) = _
  rw [if_neg hne, hread]
  rfl

theorem decodeFrame_encodePayload {frameType channel : UInt64} (ht : frameType.toNat < 2 ^ 53)
    (hc : channel.toNat < 2 ^ 53) (payload : Bytes) :
    Client.decodeFrame (Server.encodePayload frameType channel payload) =
      Client.decodeBody frameType.toNat channel.toNat payload :=
  decodeFrame_header ht hc payload

/-- **Client and server agree on the wire format.** Each side decodes every
frame the other sends to the kind, channel and content it was built from; the
server's var-uint reader inverts its writer on every `u64` and accepts only the
number the bytes spell, so nothing above 64 bits. PONG and CHUNKED travel on
the control channel, as the server sends them. -/
theorem wire_format_agreement (channel : UInt64) (hc : channel.toNat < 2 ^ 53)
    (path : String) (hpath : (utf8 path).length ≤ Server.maxOpenPathBytes)
    (payload : Bytes) (hpayload : payload.length ≤ Server.maxDataFrameBytes)
    (reason : UInt64) (hr : reason.toNat < 2 ^ 53) :
    (Server.parseFrame (Client.encodeOpen channel.toNat path) =
        some (.openChannel channel path) ∧
      Server.parseFrame (Client.encodeData channel.toNat payload true) =
        some (.data channel payload) ∧
      Server.parseFrame (Client.encodeData channel.toNat payload false) =
        some (.part channel payload) ∧
      Server.parseFrame (Client.encodeClose channel.toNat) = some (.close channel) ∧
      Server.parseFrame Client.encodePing = some .ping) ∧
    (Client.decodeFrame (Server.encodeSimple Server.frameOpenOk channel) =
        some (.openOk channel.toNat) ∧
      Client.decodeFrame (Server.encodeSimple Server.frameClose channel) =
        some (.close channel.toNat) ∧
      Client.decodeFrame (Server.encodeSimple Server.framePong Server.controlChannel) =
        some .pong ∧
      Client.decodeFrame (Server.encodeSimple Server.frameChunked Server.controlChannel) =
        some .chunked ∧
      Client.decodeFrame (Server.encodeOpenErr channel reason) =
        some (.openErr channel.toNat reason.toNat) ∧
      Client.decodeFrame (Server.encodeData channel payload) =
        some (.data channel.toNat payload) ∧
      Client.decodeFrame (Server.encodePayload Server.framePart channel payload) =
        some (.part channel.toNat payload)) ∧
    (∀ (n : UInt64) (rest : Bytes),
        Server.readVarint (Server.writeVarint n ++ rest) = some (n, rest)) ∧
      (∀ (buf rest : Bytes) (n : UInt64), Server.readVarint buf = some (n, rest) →
        Leb128.decode buf = some (n.toNat, rest)) ∧
      ∀ (buf rest : Bytes) (m : Nat), Leb128.decode buf = some (m, rest) → 2 ^ 64 ≤ m →
        Server.readVarint buf = none := by
  have hfits : ¬ payload.length > Server.maxDataFrameBytes := by omega
  refine ⟨⟨parseFrame_encodeOpen channel hpath, ?_, ?_, parseFrame_encodeClose channel,
    parseFrame_encodePing⟩, ⟨?_, ?_, ?_, ?_, decodeFrame_encodeOpenErr hc hr, ?_, ?_⟩,
    readVarint_writeVarint, fun _ _ _ => decode_of_readVarint,
    fun _ _ _ => readVarint_eq_none⟩
  · rw [parseFrame_encodeData, if_neg hfits]
    rfl
  · rw [parseFrame_encodeData, if_neg hfits]
    rfl
  · rw [decodeFrame_encodeSimple (by decide) hc]
    rfl
  · rw [decodeFrame_encodeSimple (by decide) hc]
    rfl
  · rw [decodeFrame_encodeSimple (by decide) (by decide)]
    rfl
  · rw [decodeFrame_encodeSimple (by decide) (by decide)]
    rfl
  · exact decodeFrame_encodePayload (by decide) hc payload
  · rw [decodeFrame_encodePayload (by decide) hc]
    rfl

theorem wire_format_agreement_channel_300 :
    Server.parseFrame (Client.encodeOpen 300 "/d/a/ws/a?token=t") =
        some (.openChannel 300 "/d/a/ws/a?token=t") ∧
      Client.decodeFrame (Server.encodeOpenErr 300 2) = some (.openErr 300 2) :=
  have h := wire_format_agreement 300 (by decide) "/d/a/ws/a?token=t" (by decide) [1, 2, 3]
    (by decide) 2 (by decide)
  ⟨h.1.1, h.2.1.2.2.2.2.1⟩

end Realtime.Mux
