import Mathlib.Data.Vector.Defs
import Mathlib.Data.List.Basic

/-!
# Fixed-width binary fields

The layout of a field type is an encoder onto byte strings of one width that
reaches all of them. Layouts are combined by placing one field after the
other, so that a whole header has one layout and any sufficiently long byte
string splits into a header and a rest.
-/

namespace PacketPipe.ByteFields

universe u

/-- The layout of a field; every byte string of its width is an encoding. -/
structure Layout (β : Type u) where
  /-- Number of bytes. -/
  width : ℕ
  /-- Layout of a value. -/
  encode : β → List UInt8
  /-- Encodings have the width. -/
  length_encode : ∀ x,(encode x).length=width
  /-- Encodings are all byte strings of the width. -/
  reaches : ∀ bytes,bytes.length=width → ∃ x,encode x=bytes

/-- The big-endian value of two bytes. -/
def join16 (hi lo : UInt8) : UInt16 := UInt16.ofNat (256*hi.toNat+lo.toNat)

/-- The two bytes of a value, most significant first. -/
def split16 (x : UInt16) : List UInt8 := [UInt8.ofNat (x.toNat/256),UInt8.ofNat x.toNat]

/-- Joining the two bytes of a value gives the value. -/
theorem join_split16 (x : UInt16) :
    join16 (UInt8.ofNat (x.toNat/256)) (UInt8.ofNat x.toNat)=x := by
  have hbound := x.toNat_lt
  refine UInt16.toNat_inj.mp ?_
  rw [join16,UInt16.toNat_ofNat',UInt8.toNat_ofNat',UInt8.toNat_ofNat']
  omega

/-- Splitting two joined bytes gives the bytes. -/
theorem split_join16 (hi lo : UInt8) : split16 (join16 hi lo)=[hi,lo] := by
  have hhi := hi.toNat_lt
  have hlo := lo.toNat_lt
  have hvalue : (join16 hi lo).toNat=256*hi.toNat+lo.toNat := by
    rw [join16,UInt16.toNat_ofNat']
    omega
  have hfirst : UInt8.ofNat ((join16 hi lo).toNat/256)=hi := by
    refine UInt8.toNat_inj.mp ?_
    rw [hvalue,UInt8.toNat_ofNat']
    omega
  have hsecond : UInt8.ofNat (join16 hi lo).toNat=lo := by
    refine UInt8.toNat_inj.mp ?_
    rw [hvalue,UInt8.toNat_ofNat']
    omega
  rw [split16,hfirst,hsecond]

/-- One byte. -/
def byte : Layout UInt8 where
  width := 1
  encode b := [b]
  length_encode _ := rfl
  reaches bytes h := by
    obtain ⟨b,rfl⟩ := List.length_eq_one_iff.mp h
    exact ⟨b,rfl⟩

/-- Two bytes in network order. -/
def big16 : Layout UInt16 where
  width := 2
  encode := split16
  length_encode _ := rfl
  reaches bytes h := by
    obtain ⟨hi,lo,rfl⟩ := List.length_eq_two.mp h
    exact ⟨join16 hi lo,split_join16 hi lo⟩

/-- Uninterpreted bytes. -/
def raw (n : ℕ) : Layout (Vector UInt8 n) where
  width := n
  encode v := v.toList
  length_encode v := v.length_toList
  reaches bytes h := ⟨⟨bytes.toArray,h⟩,rfl⟩

/-- One field after the other. -/
def Layout.before {β γ : Type} (f : Layout β) (g : Layout γ) : Layout (β×γ) where
  width := f.width+g.width
  encode x := f.encode x.1++g.encode x.2
  length_encode x := by rw [List.length_append,f.length_encode,g.length_encode]
  reaches bytes h := by
    have hfirst : (bytes.take f.width).length=f.width := by
      rw [List.length_take,h]
      omega
    have hsecond : (bytes.drop f.width).length=g.width := by
      rw [List.length_drop,h]
      omega
    obtain ⟨x,hx⟩ := f.reaches _ hfirst
    obtain ⟨y,hy⟩ := g.reaches _ hsecond
    exact ⟨(x,y),by rw [hx,hy,List.take_append_drop]⟩

/-- A long enough byte string starts with an encoding. -/
theorem Layout.split {β : Type u} (f : Layout β) {bytes : List UInt8} (h : f.width≤bytes.length) :
    ∃ x rest,bytes=f.encode x++rest := by
  have htake : (bytes.take f.width).length=f.width := by
    rw [List.length_take]
    omega
  obtain ⟨x,hx⟩ := f.reaches _ htake
  exact ⟨x,bytes.drop f.width,by rw [hx,List.take_append_drop]⟩

end PacketPipe.ByteFields
