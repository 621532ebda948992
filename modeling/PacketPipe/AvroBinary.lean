import Mathlib.Data.List.Basic
import Mathlib.Data.Int.Notation
import Mathlib.Tactic.NormNum

/-!
# The Avro binary encoding

Schemas and data of the Avro specification, without the kinds that nothing
here uses. Integers are zig-zag varints of bounded length, strings carry their
byte length, enums and unions their index. A datum that conforms to a schema
is decoded from its encoding, whatever follows it.
-/

namespace PacketPipe.AvroBinary

section Varint

/-- Base 128, least significant digit first, in at most `k+1` bytes. -/
def writeVarint : ℕ → ℕ → List UInt8
  | 0,n => [UInt8.ofNat n]
  | k+1,n =>
    if n<128 then [UInt8.ofNat n]
    else UInt8.ofNat (n%128+128)::writeVarint k (n/128)

/-- The number at the front of at most `k+1` bytes, and what follows it. -/
def readVarint : ℕ → List UInt8 → Option (ℕ×List UInt8)
  | _,[] => none
  | 0,b::rest => if b.toNat<128 then some (b.toNat,rest) else none
  | k+1,b::rest =>
    if b.toNat<128 then some (b.toNat,rest)
    else (readVarint k rest).map fun p => (b.toNat-128+128*p.1,p.2)

/-- A number that fits is read back. -/
theorem read_writeVarint {k n : ℕ} (h : n<128^(k+1)) (rest : List UInt8) :
    readVarint k (writeVarint k n++rest)=some (n,rest) := by
  induction k generalizing n with
  | zero =>
    have hbyte : (UInt8.ofNat n).toNat=n := by
      rw [UInt8.toNat_ofNat']
      omega
    rw [writeVarint,List.singleton_append,readVarint,hbyte,if_pos (by omega)]
  | succ k ih =>
    rw [writeVarint]
    split
    · rename_i hlast
      have hbyte : (UInt8.ofNat n).toNat=n := by
        rw [UInt8.toNat_ofNat']
        omega
      rw [List.singleton_append,readVarint,hbyte,if_pos hlast]
    · have hbyte : (UInt8.ofNat (n%128+128)).toNat=n%128+128 := by
        rw [UInt8.toNat_ofNat']
        omega
      have hquotient : n/128<128^(k+1) := by
        rw [pow_succ] at h
        omega
      rw [List.cons_append,readVarint,hbyte,if_neg (by omega),ih hquotient,Option.map_some]
      exact congrArg (fun m => some (m,rest)) (by omega)

/-- Zig-zag numbering of the integers. -/
def zigZag : ℤ → ℕ
  | .ofNat n => 2*n
  | .negSucc n => 2*n+1

/-- The integer with a zig-zag number. -/
def unZigZag (n : ℕ) : ℤ := if n%2=0 then Int.ofNat (n/2) else Int.negSucc (n/2)

/-- Zig-zag numbers are unique. -/
theorem unZigZag_zigZag (v : ℤ) : unZigZag (zigZag v)=v := by
  cases v with
  | ofNat n =>
    rw [zigZag,unZigZag,if_pos (by omega)]
    exact congrArg Int.ofNat (by omega)
  | negSucc n =>
    rw [zigZag,unZigZag,if_neg (by omega)]
    exact congrArg Int.negSucc (by omega)

/-- The zig-zag number of a bounded integer. -/
theorem zigZag_lt {v : ℤ} (bound : ℕ) (hlo : -bound≤v) (hhi : v<bound) :
    zigZag v<2*bound := by
  cases v with
  | ofNat n =>
    have hn : (n : ℤ)<bound := hhi
    rw [zigZag]
    omega
  | negSucc n =>
    rw [zigZag]
    omega

/-- An `int`. -/
def writeInt (v : Int32) : List UInt8 := writeVarint 4 (zigZag v.toInt)

/-- A `long`. -/
def writeLong (v : Int64) : List UInt8 := writeVarint 9 (zigZag v.toInt)

/-- The `int` at the front. -/
def readInt (bytes : List UInt8) : Option (Int32×List UInt8) :=
  (readVarint 4 bytes).bind fun p =>
    if -2^31≤unZigZag p.1 ∧ unZigZag p.1<2^31 then some (Int32.ofInt (unZigZag p.1),p.2)
    else none

/-- The `long` at the front. -/
def readLong (bytes : List UInt8) : Option (Int64×List UInt8) :=
  (readVarint 9 bytes).bind fun p =>
    if -2^63≤unZigZag p.1 ∧ unZigZag p.1<2^63 then some (Int64.ofInt (unZigZag p.1),p.2)
    else none

/-- An `int` is read back. -/
theorem read_writeInt (v : Int32) (rest : List UInt8) :
    readInt (writeInt v++rest)=some (v,rest) := by
  have hlo := v.le_toInt
  have hhi := v.toInt_lt
  have hfits : zigZag v.toInt<128^(4+1) :=
    lt_of_lt_of_le (zigZag_lt (2^31) (by omega) (by omega)) (by norm_num)
  rw [readInt,writeInt,read_writeVarint hfits,Option.bind_some,unZigZag_zigZag,
    if_pos ⟨hlo,hhi⟩,Int32.ofInt_toInt]

/-- A `long` is read back. -/
theorem read_writeLong (v : Int64) (rest : List UInt8) :
    readLong (writeLong v++rest)=some (v,rest) := by
  have hlo := v.le_toInt
  have hhi := v.toInt_lt
  have hfits : zigZag v.toInt<128^(9+1) :=
    lt_of_lt_of_le (zigZag_lt (2^63) (by omega) (by omega)) (by norm_num)
  rw [readLong,writeLong,read_writeVarint hfits,Option.bind_some,unZigZag_zigZag,
    if_pos ⟨hlo,hhi⟩,Int64.ofInt_toInt]

end Varint

section Data

/-- A schema; the fields of a record have names and types side by side. -/
inductive Schema
  | null
  | int
  | long
  | string
  | enum (symbols : List String)
  | union (branches : List Schema)
  | record (names : List String) (types : List Schema)

/-- A datum with what its schema says about it. -/
inductive Datum
  | null
  | int (v : Int32)
  | long (v : Int64)
  | string (s : String)
  | enum (symbols : List String) (index : ℕ)
  | union (branches : List Schema) (branch : ℕ) (d : Datum)
  | record (names : List String) (values : List Datum)

/-- The UTF-8 bytes of a text. -/
def utf8 (s : String) : List UInt8 := s.toUTF8.data.toList

/-- The text with the given UTF-8 bytes. -/
def ofUtf8 (bytes : List UInt8) : Option String := String.fromUTF8? ⟨bytes.toArray⟩

/-- A text is determined by its bytes. -/
theorem ofUtf8_utf8 (s : String) : ofUtf8 (utf8 s)=some s :=
  dif_pos s.isValidUTF8

/-- Characters have at most four bytes. -/
theorem length_utf8_le (s : String) : (utf8 s).length≤4*s.length := by
  have hchars : ∀ l : List Char,l.utf8Encode.size≤4*l.length := by
    intro l
    induction l with
    | nil => rfl
    | cons c l ih =>
      have hc := c.utf8Size_le_four
      rw [List.utf8Encode_cons,ByteArray.size_append,List.utf8Encode_singleton,
        List.size_toByteArray,String.length_utf8EncodeChar,List.length_cons]
      omega
  have hbytes := hchars s.toList
  rw [String.utf8Encode_toList,String.length_toList] at hbytes
  exact hbytes

mutual

/-- The encoding of a datum. -/
def encode : Datum → List UInt8
  | .null => []
  | .int v => writeInt v
  | .long v => writeLong v
  | .string s => writeLong (Int64.ofNat (utf8 s).length)++utf8 s
  | .enum _ index => writeInt (Int32.ofNat index)
  | .union _ branch d => writeLong (Int64.ofNat branch)++encode d
  | .record _ values => encodeFields values

/-- The encodings of the fields of a record. -/
def encodeFields : List Datum → List UInt8
  | [] => []
  | d::values => encode d++encodeFields values

end

/-- The text at the front. -/
def readString (bytes : List UInt8) : Option (String×List UInt8) :=
  (readLong bytes).bind fun p =>
    if 0≤p.1.toInt ∧ p.1.toInt≤p.2.length then
      (ofUtf8 (p.2.take p.1.toInt.toNat)).map fun s => (s,p.2.drop p.1.toInt.toNat)
    else none

mutual

/-- The datum of a schema at the front of the bytes, and what follows it. -/
def decode : Schema → List UInt8 → Option (Datum×List UInt8)
  | .null,bytes => some (.null,bytes)
  | .int,bytes => (readInt bytes).map fun p => (.int p.1,p.2)
  | .long,bytes => (readLong bytes).map fun p => (.long p.1,p.2)
  | .string,bytes => (readString bytes).map fun p => (.string p.1,p.2)
  | .enum symbols,bytes =>
    (readInt bytes).bind fun p =>
      if 0≤p.1.toInt ∧ p.1.toInt<symbols.length then
        some (.enum symbols p.1.toInt.toNat,p.2)
      else none
  | .union branches,bytes =>
    (readLong bytes).bind fun p =>
      if 0≤p.1.toInt then
        (decodeBranch branches p.1.toInt.toNat p.2).map fun q =>
          (.union branches p.1.toInt.toNat q.1,q.2)
      else none
  | .record names types,bytes =>
    (decodeFields types bytes).map fun p => (.record names p.1,p.2)

/-- The datum of the branch with an index. -/
def decodeBranch : List Schema → ℕ → List UInt8 → Option (Datum×List UInt8)
  | [],_,_ => none
  | s::_,0,bytes => decode s bytes
  | _::branches,i+1,bytes => decodeBranch branches i bytes

/-- The fields of a record in order. -/
def decodeFields : List Schema → List UInt8 → Option (List Datum×List UInt8)
  | [],bytes => some ([],bytes)
  | s::types,bytes =>
    (decode s bytes).bind fun p => (decodeFields types p.2).map fun q => (p.1::q.1,q.2)

end

mutual

/-- A datum of a schema, with lengths and indices that fit. -/
inductive Conforms : Datum → Schema → Prop
  | null : Conforms .null .null
  | int (v : Int32) : Conforms (.int v) .int
  | long (v : Int64) : Conforms (.long v) .long
  | string (s : String) : (utf8 s).length<2^63 → Conforms (.string s) .string
  | enum (symbols : List String) (index : ℕ) : index<symbols.length → index<2^31 →
      Conforms (.enum symbols index) (.enum symbols)
  | union (branches : List Schema) (branch : ℕ) (s : Schema) (d : Datum) :
      branches[branch]?=some s → branch<2^63 → Conforms d s →
      Conforms (.union branches branch d) (.union branches)
  | record (names : List String) (values : List Datum) (types : List Schema) :
      ConformAll values types → Conforms (.record names values) (.record names types)

/-- Every field conforms to its type. -/
inductive ConformAll : List Datum → List Schema → Prop
  | nil : ConformAll [] []
  | cons (d : Datum) (s : Schema) (values : List Datum) (types : List Schema) :
      Conforms d s → ConformAll values types → ConformAll (d::values) (s::types)

end

/-- A branch is selected by its index. -/
theorem decodeBranch_get {branches : List Schema} {i : ℕ} {s : Schema}
    (h : branches[i]?=some s) (bytes : List UInt8) :
    decodeBranch branches i bytes=decode s bytes := by
  induction branches generalizing i with
  | nil => cases h
  | cons b branches ih =>
    cases i with
    | zero =>
      cases h
      rw [decodeBranch]
    | succ i =>
      rw [decodeBranch]
      exact ih h

/-- A small index as an `int`. -/
theorem toInt_ofNat32 {n : ℕ} (h : n<2^31) : (Int32.ofNat n).toInt=n :=
  Int32.toInt_ofNat_of_lt h

/-- A small length as a `long`. -/
theorem toInt_ofNat64 {n : ℕ} (h : n<2^63) : (Int64.ofNat n).toInt=n :=
  Int64.toInt_ofNat_of_lt h

/-- A text is read back. -/
theorem read_string {s : String} (h : (utf8 s).length<2^63) (rest : List UInt8) :
    readString (writeLong (Int64.ofNat (utf8 s).length)++utf8 s++rest)=some (s,rest) := by
  rw [readString,List.append_assoc,read_writeLong,Option.bind_some]
  dsimp only
  rw [toInt_ofNat64 h,if_pos ⟨by omega,by rw [List.length_append]; omega⟩,Int.toNat_natCast,
    List.take_left,List.drop_left,ofUtf8_utf8]
  rfl

mutual

/-- A conforming datum is decoded from its encoding, whatever follows. -/
theorem decode_encode {d : Datum} {s : Schema} (h : Conforms d s) (rest : List UInt8) :
    decode s (encode d++rest)=some (d,rest) := by
  cases h with
  | null => rfl
  | int v => rw [decode,encode,read_writeInt]; rfl
  | long v => rw [decode,encode,read_writeLong]; rfl
  | string t hlength => rw [decode,encode,read_string hlength]; rfl
  | enum symbols index hindex hfits =>
    rw [decode,encode,read_writeInt,Option.bind_some]
    dsimp only
    rw [toInt_ofNat32 hfits,if_pos ⟨by omega,by omega⟩,Int.toNat_natCast]
  | union branches branch t d hget hfits hd =>
    rw [decode,encode,List.append_assoc,read_writeLong,Option.bind_some]
    dsimp only
    rw [toInt_ofNat64 hfits,if_pos (by omega),Int.toNat_natCast,decodeBranch_get hget,
      decode_encode hd rest]
    rfl
  | record names values types hall =>
    rw [decode,encode,decodeFields_encodeFields hall rest]
    rfl

/-- Conforming fields are decoded from their encodings. -/
theorem decodeFields_encodeFields {values : List Datum} {types : List Schema}
    (h : ConformAll values types) (rest : List UInt8) :
    decodeFields types (encodeFields values++rest)=some (values,rest) := by
  cases h with
  | nil => rfl
  | cons d s values types hd hall =>
    rw [decodeFields,encodeFields,List.append_assoc,decode_encode hd,Option.bind_some]
    dsimp only
    rw [decodeFields_encodeFields hall rest]
    rfl

end

end Data

end PacketPipe.AvroBinary
