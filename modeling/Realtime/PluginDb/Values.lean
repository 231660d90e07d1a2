import Realtime.Lib.Base64
import Realtime.Lib.Integers
import Realtime.Structured.ServerReconcile

/-!
# SQL values between client and server

The codecs of a value, `sql_to_json` and `json_to_sql` of `server/src/plugindb.rs` and
`encodeVal` and `decodeVal` of `src/pluginDb/crsqlite.ts`, over both transports. A number
that a client writes into a Yjs document is a double on the server, so an integer comes back
as a real.
-/

namespace Realtime.PluginDb

open Lib Lib.Integers
open Lib.Js (Value)
open Lib.Utf16 (JsString ascii)
open Structured.Server (Json Number Any jsonToAny anyToJson toJs)

/-! ## The server -/

/-- An `i64`. -/
abbrev I64 := {n : ℤ // InI64 n}

inductive SqlValue where
  | null
  | integer (i : I64)
  | real (q : ℚ)
  | text (s : Str)
  | blob (bytes : Bytes)

/-- `JS_MAX_SAFE`, `Number.MAX_SAFE_INTEGER` -/
def maxSafe : ℤ := 2 ^ 53 - 1

def blobTag : Str := "$blob".toList

def intTag : Str := "$int".toList

/-- `i.abs()`; none where it overflows, which is checked. -/
def I64.abs (i : I64) : Option ℤ := if i.1 = -2 ^ 63 then none else some |i.1|

/-- `sql_to_json`; none where it panics. -/
def sqlToJson : SqlValue → Option Json
  | .null => some .null
  | .integer i =>
      i.abs.map fun size =>
        if size ≤ maxSafe then .number (.int i.1)
        else .object [(intTag, .string (decimal i.1))]
  | .real q => some (.number (.float q))
  | .text s => some (.string s)
  | .blob bytes => some (.object [(blobTag, .string (Base64.encode bytes))])

/-- `b64_to_bytes` -/
def b64ToBytes (s : Str) : Bytes := (Base64.decode s).getD []

/-- `as_i64`, and `as_f64` where it gives none. -/
def numberToSql : Number → SqlValue
  | .int n => if h : InI64 n then .integer ⟨n, h⟩ else .real (toDouble n)
  | .float q => .real q

/-- `int.parse().unwrap_or(0)` -/
def parseInt (s : Str) : SqlValue := numberToSql (.int ((parseI64 s).getD 0))

def jsonToSql : Json → SqlValue
  | .null => .null
  | .bool b => numberToSql (.int (if b then 1 else 0))
  | .number n => numberToSql n
  | .string s => .text s
  | .object map =>
      match Assoc.get blobTag map, Assoc.get intTag map with
      | some (.string b64), _ => .blob (b64ToBytes b64)
      | _, some (.string int) => parseInt int
      | _, _ => .null
  | .array _ => .null

/-! ## The client -/

/-- What is bound in a statement or read from a row; `other` is no `SqlValue`. -/
inductive ClientValue where
  | undefined
  | null
  | boolean (b : Bool)
  | number (q : ℚ)
  | bigint (n : ℤ)
  | string (s : JsString)
  | bytes (bytes : Bytes)
  | other (v : Value)

def bytesToBase64 (bytes : Bytes) : JsString := Str.encodeUtf16 (Base64.encode bytes)

/-- none where `atob` throws -/
def base64ToBytes (b64 : JsString) : Option Bytes := Base64.forgivingDecode (Str.fromUtf16Lossy b64)

def IsSafe (n : ℤ) : Prop := -maxSafe ≤ n ∧ n ≤ maxSafe

instance (n : ℤ) : Decidable (IsSafe n) := inferInstanceAs (Decidable (_ ∧ _))

/-- An object with one property. -/
def tagged (tag : Str) (s : JsString) : Value := .obj true [(Str.encodeUtf16 tag, .str s)]

def encodeVal : ClientValue → Value
  | .undefined | .null => .null
  | .bytes bytes => tagged blobTag (bytesToBase64 bytes)
  | .bigint n => if IsSafe n then .num n else tagged intTag (Str.encodeUtf16 (decimal n))
  | .boolean b => .bool b
  | .number q => .num q
  | .string s => .str s
  | .other v => v

/-- `v as SqlValue` -/
def asSqlValue : Value → ClientValue
  | .undefined => .undefined
  | .null => .null
  | .bool b => .boolean b
  | .num q => .number q
  | .bigint n => .bigint n
  | .str s => .string s
  | v => .other v

/-- none where it throws; a tag holds a string. -/
def decodeVal (v : Value) : Option ClientValue :=
  if v.isObject && v.hasKey (Str.encodeUtf16 blobTag) then
    match v.read (Str.encodeUtf16 blobTag) with
    | .str b64 => (base64ToBytes b64).map .bytes
    | _ => none
  else if v.isObject && v.hasKey (Str.encodeUtf16 intTag) then
    match v.read (Str.encodeUtf16 intTag) with
    | .str int =>
        (bigInt (Str.fromUtf16Lossy int)).map fun big =>
          if IsSafe big then .number big else .bigint big
    | _ => none
  else some (asSqlValue v)

/-! ## Between them -/

/-- What the server reads of a value that a client writes into a Yjs document. -/
def written : Value → Any
  | .undefined => .undefined
  | .null => .null
  | .bool b => .bool b
  | .num q => .number q
  | .bigint n => .bigInt (n.bmod (2 ^ 64))
  | .str s => .string (Str.fromUtf16Lossy s)
  | .arr items => .array (written.items items)
  | .obj _ entries => .map (written.entries entries)
  | .inherited _ => .undefined
where
  items : List Value → List Json
    | [] => []
    | v :: rest => anyToJson (written v) :: items rest
  entries : List (JsString × Value) → List (Str × Json)
    | [] => []
    | (key, v) :: rest => (Str.fromUtf16Lossy key, anyToJson (written v)) :: entries rest

/-- The value on the client; an integer is a number only if it is safe. -/
def Represents : ClientValue → SqlValue → Prop
  | .null, .null => True
  | .number q, .integer i => q = i.1 ∧ IsSafe i.1
  | .bigint n, .integer i => n = i.1
  | .number q, .real r => q = r
  | .string s, .text t => s = Str.encodeUtf16 t
  | .bytes b, .blob b' => b = b'
  | _, _ => False

/-- A value survives: on the server, on the client, from the server to a client as JSON and
through a Yjs document, and from a client to the server. -/
structure Survives (v : SqlValue) : Prop where
  server : (sqlToJson v).map jsonToSql = some v
  client : ∀ w, Represents w v → ∃ w', decodeVal (encodeVal w) = some w' ∧ Represents w' v
  http : ∃ j w, sqlToJson v = some j ∧ decodeVal (toJs toDouble j) = some w ∧ Represents w v
  yjs : ∃ j w, sqlToJson v = some j ∧ decodeVal ((jsonToAny j).view toDouble) = some w ∧
    Represents w v
  published : ∀ w, Represents w v → jsonToSql (anyToJson (written (encodeVal w))) = v

/-! ## One codec after another -/

theorem numberToSql_int (i : I64) : numberToSql (.int i.1) = .integer i := dif_pos i.2

theorem own_tagged (tag : Str) (s : JsString) :
    (tagged tag s).own (Str.encodeUtf16 tag) = some (.str s) := if_pos rfl

theorem decodeVal_blob (bytes : Bytes) :
    decodeVal (tagged blobTag (bytesToBase64 bytes)) = some (.bytes bytes) := by
  have hown := own_tagged blobTag (bytesToBase64 bytes)
  unfold decodeVal
  rw [Js.Value.hasKey_of_own hown, Js.Value.read_of_own hown]
  dsimp only
  rw [base64ToBytes, bytesToBase64, Str.fromUtf16Lossy_encodeUtf16, Base64.forgivingDecode_encode]
  rfl

theorem decodeVal_int {n : ℤ} (h : ¬IsSafe n) :
    decodeVal (tagged intTag (Str.encodeUtf16 (decimal n))) = some (.bigint n) := by
  have hown := own_tagged intTag (Str.encodeUtf16 (decimal n))
  have hblob : (tagged intTag (Str.encodeUtf16 (decimal n))).hasKey
      (Str.encodeUtf16 blobTag) = false := by
    have hproto : Str.encodeUtf16 blobTag ∉ Js.prototypeNames := by decide +kernel
    have htag : Str.encodeUtf16 blobTag ≠ Str.encodeUtf16 intTag := by decide +kernel
    simp [tagged, Js.Value.hasKey, Assoc.keys, hproto, htag]
  unfold decodeVal
  rw [hblob, Js.Value.hasKey_of_own hown, Js.Value.read_of_own hown]
  dsimp only
  rw [Str.fromUtf16Lossy_encodeUtf16, bigInt_decimal, Option.map_some, if_neg h]
  rfl

theorem jsonToSql_blob (bytes : Bytes) :
    jsonToSql (.object [(blobTag, .string (Base64.encode bytes))]) = .blob bytes := by
  show SqlValue.blob ((Base64.decode (Base64.encode bytes)).getD []) = _
  rw [Base64.decode_encode]
  rfl

theorem jsonToSql_int (i : I64) :
    jsonToSql (.object [(intTag, .string (decimal i.1))]) = .integer i := by
  have htag : intTag ≠ blobTag := by decide +kernel
  have hblob : Assoc.get blobTag [(intTag, Json.string (decimal i.1))] = none := if_neg htag
  have hint : Assoc.get intTag [(intTag, Json.string (decimal i.1))] =
      some (.string (decimal i.1)) := if_pos rfl
  unfold jsonToSql
  dsimp only
  rw [hblob, hint]
  dsimp only
  rw [parseInt, parseI64_decimal i.2, Option.getD_some, numberToSql_int]

/-- A tagged string is the same object on the server. -/
theorem anyToJson_written_tagged (tag s : Str) :
    anyToJson (written (tagged tag (Str.encodeUtf16 s))) = .object [(tag, .string s)] := by
  simp [tagged, written, written.entries, anyToJson]

/-! ## Integers -/

theorem I64.abs_eq_none_iff (i : I64) : i.abs = none ↔ i.1 = -2 ^ 63 := by
  rw [I64.abs]
  split_ifs with h
  · exact iff_of_true rfl h
  · exact iff_of_false nofun h

theorem sqlToJson_beyond {i : I64} (h : ¬IsSafe i.1) (hne : i.1 ≠ -2 ^ 63) :
    sqlToJson (.integer i) = some (.object [(intTag, .string (decimal i.1))]) := by
  rw [sqlToJson, I64.abs, if_neg hne, Option.map_some, if_neg (mt abs_le.mp h)]

/-- Every representation of a safe integer is written as a number. -/
theorem encodeVal_safe {i : I64} (h : IsSafe i.1) {w : ClientValue}
    (hw : Represents w (.integer i)) : encodeVal w = .num i.1 := by
  cases w with
  | number q => exact congrArg Value.num hw.1
  | bigint n =>
      have hn : n = i.1 := hw
      rw [hn, encodeVal, if_pos h]
  | _ => cases hw

/-- An integer beyond the safe ones is a `bigint`, and written with its tag. -/
theorem encodeVal_beyond {i : I64} (h : ¬IsSafe i.1) {w : ClientValue}
    (hw : Represents w (.integer i)) :
    encodeVal w = tagged intTag (Str.encodeUtf16 (decimal i.1)) := by
  cases w with
  | number q => exact (h hw.2).elim
  | bigint n =>
      have hn : n = i.1 := hw
      rw [hn, encodeVal, if_neg h]
  | _ => cases hw

/-- A safe integer that a client publishes is a real on the server. -/
theorem published_safe {i : I64} (h : IsSafe i.1) {w : ClientValue}
    (hw : Represents w (.integer i)) :
    jsonToSql (anyToJson (written (encodeVal w))) = .real i.1 := by
  rw [encodeVal_safe h hw]
  rfl

theorem survives_integer {i : I64} (h : ¬IsSafe i.1) (hne : i.1 ≠ -2 ^ 63) :
    Survives (.integer i) where
  server := by rw [sqlToJson_beyond h hne, Option.map_some, jsonToSql_int]
  client := fun w hw => ⟨.bigint i.1, by rw [encodeVal_beyond h hw, decodeVal_int h], rfl⟩
  http := ⟨_, .bigint i.1, sqlToJson_beyond h hne, decodeVal_int h, rfl⟩
  yjs := ⟨_, .bigint i.1, sqlToJson_beyond h hne, decodeVal_int h, rfl⟩
  published := fun w hw => by
    rw [encodeVal_beyond h hw, anyToJson_written_tagged, jsonToSql_int]

/-! ## The other values -/

theorem survives_null : Survives .null where
  server := rfl
  client := fun w hw => by
    cases w with
    | null => exact ⟨.null, rfl, trivial⟩
    | _ => cases hw
  http := ⟨.null, .null, rfl, rfl, trivial⟩
  yjs := ⟨.null, .null, rfl, rfl, trivial⟩
  published := fun w hw => by
    cases w with
    | null => rfl
    | _ => cases hw

theorem survives_real (q : ℚ) : Survives (.real q) where
  server := rfl
  client := fun w hw => by
    cases w with
    | number r => exact ⟨.number r, rfl, hw⟩
    | _ => cases hw
  http := ⟨.number (.float q), .number q, rfl, rfl, rfl⟩
  yjs := ⟨.number (.float q), .number q, rfl, rfl, rfl⟩
  published := fun w hw => by
    cases w with
    | number r => exact congrArg SqlValue.real hw
    | _ => cases hw

theorem survives_text (s : Str) : Survives (.text s) where
  server := rfl
  client := fun w hw => by
    cases w with
    | string t => exact ⟨.string t, rfl, hw⟩
    | _ => cases hw
  http := ⟨.string s, .string (Str.encodeUtf16 s), rfl, rfl, rfl⟩
  yjs := ⟨.string s, .string (Str.encodeUtf16 s), rfl, rfl, rfl⟩
  published := fun w hw => by
    cases w with
    | string t =>
        have ht : t = Str.encodeUtf16 s := hw
        rw [ht]
        exact congrArg SqlValue.text (Str.fromUtf16Lossy_encodeUtf16 s)
    | _ => cases hw

theorem survives_blob (bytes : Bytes) : Survives (.blob bytes) where
  server := congrArg some (jsonToSql_blob bytes)
  client := fun w hw => by
    cases w with
    | bytes b =>
        have hb : b = bytes := hw
        rw [hb]
        exact ⟨.bytes bytes, decodeVal_blob bytes, rfl⟩
    | _ => cases hw
  http := ⟨_, .bytes bytes, rfl, decodeVal_blob bytes, rfl⟩
  yjs := ⟨_, .bytes bytes, rfl, decodeVal_blob bytes, rfl⟩
  published := fun w hw => by
    cases w with
    | bytes b =>
        have hb : b = bytes := hw
        rw [hb, encodeVal, bytesToBase64, anyToJson_written_tagged, jsonToSql_blob]
    | _ => cases hw

/-- A value survives unless it is an integer that JavaScript takes for a safe one, or the
least of all. -/
theorem survives_iff (v : SqlValue) :
    Survives v ↔ ∀ i, v = .integer i → ¬IsSafe i.1 ∧ i.1 ≠ -2 ^ 63 := by
  constructor
  · rintro h i rfl
    refine ⟨fun hsafe => ?_, fun hleast => ?_⟩
    · have hw : Represents (.bigint i.1) (.integer i) := rfl
      have hpublished := h.published _ hw
      rw [published_safe hsafe hw] at hpublished
      cases hpublished
    · obtain ⟨j, w, hj, -⟩ := h.http
      rw [sqlToJson, (I64.abs_eq_none_iff i).mpr hleast] at hj
      cases hj
  · intro h
    cases v with
    | null => exact survives_null
    | integer i =>
        obtain ⟨hnotSafe, hne⟩ := h i rfl
        exact survives_integer hnotSafe hne
    | real q => exact survives_real q
    | text s => exact survives_text s
    | blob bytes => exact survives_blob bytes

/-- The integer 5 of a client is the real 5.0 on the server. -/
theorem not_survives_five : ¬Survives (.integer ⟨5, by decide⟩) := by
  intro h
  have hpublished := h.published (.number 5) ⟨rfl, by decide⟩
  cases hpublished

end Realtime.PluginDb
