/-
  Relaunchd.Lib.Records — values of one size in a stream of bytes, as a program has them that
  writes its structs to a pipe and reads them back.
-/

import Relaunchd.Lib.Codec

/-! ## Integers in memory -/

namespace LittleEndian

def bytes : Nat → Nat → Bytes
  | 0, _ => []
  | width + 1, n => UInt8.ofNat n :: bytes width (n / 256)

def value : Bytes → Nat
  | [] => 0
  | b :: rest => b.toNat + 256 * value rest

@[simp] theorem length_bytes (width n : Nat) : (bytes width n).length = width := by
  induction width generalizing n with
  | zero => rfl
  | succ width ih => simp [bytes, ih]

theorem value_bytes (width n : Nat) : value (bytes width n) = n % 256 ^ width := by
  induction width generalizing n with
  | zero => simp [bytes, value, Nat.mod_one]
  | succ width ih =>
    have hlow : (UInt8.ofNat n).toNat = n % 256 := by simp
    rw [bytes, value, ih, hlow, pow_succ', Nat.mod_mul]

theorem value_bytes_of_lt {width n : Nat} (h : n < 256 ^ width) : value (bytes width n) = n := by
  rw [value_bytes, Nat.mod_eq_of_lt h]

end LittleEndian

/-! ## Values in memory -/

/-- What a value looks like in memory, and what is made of so many bytes read back. -/
structure Image (α : Type) where
  size : Nat
  bytes : α → Bytes
  value : Bytes → α
  size_pos : 0 < size
  length_bytes : ∀ a, (bytes a).length = size

namespace Image

variable {α : Type} (image : Image α)

def Faithful (a : α) : Prop := image.value (image.bytes a) = a

def stream (l : List α) : Bytes := l.flatMap image.bytes

/-- One read into an array of the size of a value. -/
def oneRead (stream : Bytes) : Bytes := stream.take image.size

@[simp] theorem stream_nil : image.stream [] = [] := rfl

@[simp] theorem stream_cons (a : α) (l : List α) : image.stream (a :: l) = image.bytes a ++ image.stream l := rfl

theorem stream_append (l l' : List α) : image.stream (l ++ l') = image.stream l ++ image.stream l' :=
  List.flatMap_append

theorem stream_concat (l : List α) (a : α) : image.stream (l ++ [a]) = image.stream l ++ image.bytes a := by
  rw [stream_append, stream_cons, stream_nil, List.append_nil]

/-- A read takes the first value. -/
theorem oneRead_cons (a : α) (l : List α) : image.oneRead (image.stream (a :: l)) = image.bytes a := by
  rw [oneRead, stream_cons, ← image.length_bytes a, List.take_left]

end Image
