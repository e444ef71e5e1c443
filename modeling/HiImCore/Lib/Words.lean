import Mathlib.Data.List.Basic
import Mathlib.Tactic.Ring

/-! Memory images of unsigned words on a little-endian host, and copies into
byte blocks. Nothing here refers to a particular wire format. -/

namespace HiImCore.Words

def image : Nat → Nat → List UInt8
  | 0, _ => []
  | width + 1, value => UInt8.ofNat value :: image width (value / 256)

def word : List UInt8 → Nat
  | [] => 0
  | byte :: rest => byte.toNat + 256 * word rest

def swap (width value : Nat) : Nat := word (image width value).reverse

@[simp] theorem image_length (width value : Nat) : (image width value).length = width := by
  induction width generalizing value with
  | zero => rfl
  | succ width ih => simp [image, ih]

theorem word_lt (block : List UInt8) : word block < 256 ^ block.length := by
  induction block with
  | nil => simp [word]
  | cons byte rest ih =>
      have low : byte.toNat < 256 := byte.toNat_lt
      simp only [word, List.length_cons, Nat.pow_succ]
      omega

theorem word_image (width value : Nat) (fits : value < 256 ^ width) :
    word (image width value) = value := by
  induction width generalizing value with
  | zero =>
      simp only [Nat.pow_zero] at fits
      simp only [image, word]
      omega
  | succ width ih =>
      have quotient : value / 256 < 256 ^ width := by
        rw [Nat.div_lt_iff_lt_mul (by decide)]
        simpa only [Nat.pow_succ] using fits
      have low : (UInt8.ofNat value).toNat = value % 256 := by
        simp [UInt8.toNat_ofNat']
      simp only [image, word, ih _ quotient, low]
      omega

theorem image_word (block : List UInt8) : image block.length (word block) = block := by
  induction block with
  | nil => rfl
  | cons byte rest ih =>
      have low : byte.toNat < 256 := byte.toNat_lt
      have quotient : (byte.toNat + 256 * word rest) / 256 = word rest := by omega
      have head : UInt8.ofNat (byte.toNat + 256 * word rest) = byte := by
        apply UInt8.toNat_inj.mp
        rw [UInt8.toNat_ofNat']
        omega
      simp only [List.length_cons, word, image, head, quotient, ih]

theorem swap_lt (width value : Nat) : swap width value < 256 ^ width := by
  have bound := word_lt (image width value).reverse
  simpa only [swap, List.length_reverse, image_length] using bound

theorem image_swap (width value : Nat) :
    image width (swap width value) = (image width value).reverse := by
  have image_back := image_word (image width value).reverse
  simpa only [swap, List.length_reverse, image_length] using image_back

theorem swap_swap (width value : Nat) (fits : value < 256 ^ width) :
    swap width (swap width value) = value := by
  rw [swap, image_swap, List.reverse_reverse, word_image width value fits]

theorem word_image_at (front back : List UInt8) (width value : Nat) (fits : value < 256 ^ width) :
    word (((front ++ (image width value ++ back)).drop front.length).take width) = value := by
  have block : (image width value ++ back).take width = image width value := by
    rw [List.take_append_of_le_length (by simp), List.take_of_length_le (by simp)]
  rw [List.drop_left, block, word_image width value fits]

def bigEndian (block : List UInt8) : Nat :=
  block.foldl (fun value byte => byte.toNat + 256 * value) 0

theorem word_eq_foldr (block : List UInt8) :
    word block = block.foldr (fun byte value => byte.toNat + 256 * value) 0 := by
  induction block with
  | nil => rfl
  | cons byte rest ih => rw [word, ih, List.foldr_cons]

theorem swap_word (block : List UInt8) : swap block.length (word block) = bigEndian block := by
  rw [swap, image_word, word_eq_foldr, List.foldr_reverse, bigEndian]

theorem bigEndian_zeros (count : Nat) : bigEndian (List.replicate count 0) = 0 := by
  induction count with
  | zero => rfl
  | succ count ih => exact ih

def copyAt {α : Type} (target : List α) (offset : Nat) (source : List α) : List α :=
  target.take offset ++ source ++ target.drop (offset + source.length)

theorem copyAt_append {α : Type} (front rest source : List α) :
    copyAt (front ++ rest) front.length source = front ++ (source ++ rest.drop source.length) := by
  rw [copyAt, List.take_left, List.drop_length_add_append, List.append_assoc]

end HiImCore.Words
