import Mathlib.Data.List.Nodup
import Mathlib.Tactic

/-!
# Hopping sequences

A hopping sequence is a table of `HOP_SEQUENCE_ROW_NUM` rows with `HOP_SEQUENCE_COL_NUM`
channels each. A node takes the row of its address and goes along it, one channel at each
wake-up. In every row of the tables a channel stands once, so a channel names its place.
-/

namespace Calipso.Micmac

/-- `hop_sequence` with its two sizes. -/
structure HopSequence where
  rowNum : ℕ
  colNum : ℕ
  array : List ℕ
  rowNum_pos : 0 < rowNum
  colNum_pos : 0 < colNum
  colNum_le : colNum ≤ 16
  length_eq : array.length = rowNum * colNum
  row_nodup : ∀ r < rowNum, ((array.drop (r * colNum)).take colNum).Nodup

namespace HopSequence

/-- `HOP_SEQUENCE_SIZE` -/
def size (h : HopSequence) : ℕ := h.rowNum * h.colNum

/-- `MY_INIT_CHANNEL_IDX` and `SEND_INIT_CHANNEL_IDX`, from the last byte of the address. -/
def initChannelIdx (h : HopSequence) (addressByte : ℕ) : ℕ := addressByte % 16 * h.colNum

/-- `CHANNEL_IDX` -/
def channelIdx (h : HopSequence) (i : ℕ) : ℕ := i % h.size

/-- `ROW_CHANNEL_IDX` -/
def rowChannelIdx (h : HopSequence) (i : ℕ) : ℕ := i % h.colNum

/-- The channel that `SEND_CHANNEL`, `MY_CHANNEL` and `HOP_CHANNEL` take from the row of an
address at an index. -/
def channel (h : HopSequence) (addressByte i : ℕ) : ℕ :=
  h.array.getD (h.channelIdx (h.initChannelIdx addressByte + h.rowChannelIdx i)) 0

/-- The row that belongs to an address. -/
def row (h : HopSequence) (addressByte : ℕ) : List ℕ :=
  (h.array.drop (addressByte % 16 % h.rowNum * h.colNum)).take h.colNum

theorem row_length (h : HopSequence) (addressByte : ℕ) :
    (h.row addressByte).length = h.colNum := by
  have hlt : addressByte % 16 % h.rowNum < h.rowNum := Nat.mod_lt _ h.rowNum_pos
  have hle : (addressByte % 16 % h.rowNum + 1) * h.colNum ≤ h.rowNum * h.colNum :=
    Nat.mul_le_mul_right _ hlt
  rw [Nat.add_mul] at hle
  simp only [row, List.length_take, List.length_drop, h.length_eq]
  omega

theorem channelIdx_row (h : HopSequence) (addressByte i : ℕ) :
    h.channelIdx (h.initChannelIdx addressByte + h.rowChannelIdx i) =
      addressByte % 16 % h.rowNum * h.colNum + i % h.colNum := by
  have hi : i % h.colNum < h.colNum := Nat.mod_lt _ h.colNum_pos
  simp only [channelIdx, initChannelIdx, rowChannelIdx, size]
  rw [Nat.mul_comm h.rowNum, Nat.mod_mul, Nat.mul_comm (addressByte % 16) h.colNum,
    Nat.mul_add_mod, Nat.mod_mod, Nat.mul_add_div h.colNum_pos, Nat.div_eq_of_lt hi, Nat.add_zero,
    Nat.mul_comm h.colNum, Nat.add_comm]

theorem channel_eq_row (h : HopSequence) (addressByte i : ℕ) :
    h.channel addressByte i = (h.row addressByte).getD (i % h.colNum) 0 := by
  have hi : i % h.colNum < h.colNum := Nat.mod_lt _ h.colNum_pos
  simp only [channel, channelIdx_row, row, List.getD_eq_getElem?_getD, List.getElem?_take, hi,
    if_true, List.getElem?_drop]

@[simp] theorem channel_mod (h : HopSequence) (addressByte i : ℕ) :
    h.channel addressByte (i % h.colNum) = h.channel addressByte i := by
  simp only [channel_eq_row, Nat.mod_mod]

/-- A channel names its place in the row. -/
theorem channel_inj (h : HopSequence) (addressByte i j : ℕ) :
    h.channel addressByte i = h.channel addressByte j ↔ i % h.colNum = j % h.colNum := by
  have hnodup : (h.row addressByte).Nodup :=
    h.row_nodup _ (Nat.mod_lt _ h.rowNum_pos)
  have hlen := h.row_length addressByte
  have hi : i % h.colNum < (h.row addressByte).length := by
    rw [hlen]; exact Nat.mod_lt _ h.colNum_pos
  have hj : j % h.colNum < (h.row addressByte).length := by
    rw [hlen]; exact Nat.mod_lt _ h.colNum_pos
  simp only [channel_eq_row, List.getD_eq_getElem?_getD, List.getElem?_eq_getElem hi,
    List.getElem?_eq_getElem hj, Option.getD_some]
  exact hnodup.getElem_inj_iff

end HopSequence

/-- `HOP_SEQUENCE_ROW_NUM` by `MCMAC_NUM_CHANNELS`, where it is more than one -/
def hopSequenceRowNum (numChannels : ℕ) : ℕ := if numChannels = 2 then 2 else 16

/-- `HOP_SEQUENCE_ARRAY` by `MCMAC_NUM_CHANNELS`, where it is more than one -/
def hopSequenceArray : ℕ → List ℕ
  | 2 => [15, 26, 26, 15]
  | 3 => [
      25, 26, 15, 25, 26, 15, 25, 26, 15, 15, 25, 26, 25, 26, 15, 25, 26, 15,
      15, 25, 26, 25, 26, 15, 25, 26, 15, 15, 25, 26, 25, 26, 15, 25, 26, 15,
      15, 25, 26, 25, 26, 15, 25, 26, 15, 15, 25, 26]
  | 4 => [
      20, 26, 15, 25, 15, 25, 20, 26, 25, 20, 26, 15, 20, 26, 15, 25,
      25, 20, 26, 15, 15, 25, 20, 26, 25, 20, 26, 15, 20, 26, 15, 25,
      25, 20, 26, 15, 15, 25, 20, 26, 25, 20, 26, 15, 20, 26, 15, 25,
      25, 20, 26, 15, 15, 25, 20, 26, 25, 20, 26, 15, 20, 26, 15, 25]
  | 5 => [
      15, 13, 25, 26, 20, 26, 25, 13, 15, 20, 25, 20, 13, 26, 15, 26, 20, 15, 13, 25,
      25, 13, 15, 20, 26, 13, 26, 15, 25, 20, 13, 25, 26, 20, 15, 13, 15, 20, 26, 25,
      15, 25, 20, 13, 26, 15, 13, 25, 26, 20, 26, 25, 13, 15, 20, 20, 13, 26, 15, 25,
      20, 15, 13, 25, 26, 20, 26, 25, 13, 15, 20, 13, 26, 15, 25, 26, 20, 15, 13, 25]
  | 6 => [
      17, 26, 15, 25, 20, 13, 20, 13, 17, 26, 15, 25,
      25, 20, 13, 17, 26, 15, 15, 25, 20, 13, 17, 26,
      25, 20, 13, 17, 26, 15, 17, 26, 15, 25, 20, 13,
      13, 17, 26, 15, 25, 20, 20, 13, 17, 26, 15, 25,
      25, 20, 13, 17, 26, 15, 15, 25, 20, 13, 17, 26,
      25, 20, 13, 17, 26, 15, 17, 26, 15, 25, 20, 13,
      13, 17, 26, 15, 25, 20, 20, 13, 17, 26, 15, 25,
      25, 20, 13, 17, 26, 15, 15, 25, 20, 13, 17, 26]
  | 7 => [
      20, 15, 22, 13, 25, 26, 17, 13, 15, 17, 25, 22, 20, 26,
      15, 13, 26, 20, 22, 25, 17, 17, 26, 25, 13, 22, 15, 20,
      25, 20, 13, 17, 22, 26, 15, 26, 17, 20, 15, 22, 13, 25,
      22, 20, 26, 13, 15, 17, 25, 20, 22, 25, 17, 15, 13, 26,
      26, 25, 13, 22, 15, 20, 17, 13, 17, 22, 26, 15, 25, 20,
      22, 13, 25, 26, 17, 20, 15, 15, 17, 25, 22, 20, 26, 13,
      17, 15, 13, 26, 20, 22, 25, 25, 13, 22, 15, 20, 17, 26,
      22, 26, 15, 25, 20, 13, 17, 15, 22, 13, 25, 26, 17, 20]
  | 8 => [
      11, 13, 17, 25, 20, 26, 15, 22, 20, 22, 17, 26, 11, 25, 15, 13,
      25, 11, 26, 17, 22, 20, 13, 15, 11, 13, 17, 25, 20, 26, 15, 22,
      13, 20, 22, 17, 26, 11, 25, 15, 20, 13, 15, 25, 11, 26, 17, 22,
      26, 15, 22, 11, 13, 17, 25, 20, 17, 26, 11, 25, 15, 13, 20, 22,
      13, 15, 25, 11, 26, 17, 22, 20, 15, 22, 11, 13, 17, 25, 20, 26,
      22, 17, 26, 11, 25, 15, 13, 20, 17, 22, 20, 13, 15, 25, 11, 26,
      25, 20, 26, 15, 22, 11, 13, 17, 11, 25, 15, 13, 20, 22, 17, 26,
      22, 20, 13, 15, 25, 11, 26, 17, 20, 26, 15, 22, 11, 13, 17, 25]
  | 9 => [
      25, 26, 15, 17, 20, 13, 21, 22, 11, 15, 26, 25, 11, 22, 21, 13, 20, 17,
      15, 20, 25, 11, 26, 21, 13, 22, 17, 21, 20, 13, 25, 22, 11, 17, 26, 15,
      22, 13, 17, 26, 11, 21, 20, 15, 25, 20, 25, 13, 26, 21, 15, 22, 17, 11,
      22, 25, 13, 20, 21, 15, 26, 17, 11, 15, 17, 22, 13, 21, 26, 11, 25, 20,
      25, 20, 11, 17, 22, 15, 21, 26, 13, 13, 17, 20, 11, 21, 22, 15, 25, 26,
      17, 20, 13, 21, 22, 11, 25, 26, 15, 20, 17, 15, 26, 25, 11, 22, 21, 13,
      22, 17, 15, 20, 25, 11, 26, 21, 13, 15, 21, 20, 13, 25, 22, 11, 17, 26,
      25, 22, 13, 17, 26, 11, 21, 20, 15, 17, 11, 20, 25, 13, 26, 21, 15, 22]
  | 10 => [
      17, 25, 14, 22, 20, 26, 11, 13, 15, 21, 17, 21, 15, 13, 11, 26, 20, 22, 14, 25,
      21, 14, 26, 15, 25, 20, 13, 17, 22, 11, 15, 21, 17, 25, 14, 22, 20, 26, 11, 13,
      21, 15, 13, 11, 26, 20, 22, 14, 25, 17, 17, 22, 11, 21, 14, 26, 15, 25, 20, 13,
      21, 17, 25, 14, 22, 20, 26, 11, 13, 15, 14, 25, 17, 21, 15, 13, 11, 26, 20, 22,
      25, 20, 13, 17, 22, 11, 21, 14, 26, 15, 17, 25, 14, 22, 20, 26, 11, 13, 15, 21,
      22, 14, 25, 17, 21, 15, 13, 11, 26, 20, 14, 26, 15, 25, 20, 13, 17, 22, 11, 21,
      25, 14, 22, 20, 26, 11, 13, 15, 21, 17, 20, 22, 14, 25, 17, 21, 15, 13, 11, 26,
      22, 11, 21, 14, 26, 15, 25, 20, 13, 17, 14, 22, 20, 26, 11, 13, 15, 21, 17, 25]
  | 11 => [
      11, 17, 20, 15, 18, 21, 22, 13, 25, 26, 14,
      15, 14, 22, 20, 26, 21, 17, 25, 18, 11, 13,
      14, 17, 15, 21, 13, 26, 11, 20, 18, 22, 25,
      22, 15, 11, 25, 21, 20, 14, 13, 18, 17, 26,
      20, 21, 25, 11, 15, 22, 26, 17, 18, 13, 14,
      26, 13, 21, 15, 17, 14, 25, 22, 18, 20, 11,
      21, 26, 20, 22, 14, 15, 13, 11, 18, 25, 17,
      17, 11, 14, 26, 25, 13, 22, 21, 18, 15, 20,
      25, 20, 13, 17, 22, 11, 21, 14, 18, 26, 15,
      26, 14, 11, 17, 20, 15, 18, 21, 22, 13, 25,
      20, 26, 21, 17, 25, 18, 11, 13, 15, 14, 22,
      26, 11, 20, 18, 22, 25, 14, 17, 15, 21, 13,
      21, 20, 14, 13, 18, 17, 26, 22, 15, 11, 25,
      17, 18, 13, 14, 20, 21, 25, 11, 15, 22, 26,
      25, 22, 18, 20, 11, 26, 13, 21, 15, 17, 14,
      18, 25, 17, 21, 26, 20, 22, 14, 15, 13, 11]
  | 12 => [
      17, 26, 11, 25, 14, 13, 23, 22, 15, 21, 20, 18,
      11, 26, 17, 18, 20, 21, 15, 22, 23, 13, 14, 25,
      13, 17, 22, 11, 21, 14, 18, 23, 26, 15, 25, 20,
      15, 21, 20, 18, 17, 26, 11, 25, 14, 13, 23, 22,
      26, 17, 18, 20, 21, 15, 22, 23, 13, 14, 25, 11,
      14, 18, 23, 26, 15, 25, 20, 13, 17, 22, 11, 21,
      18, 17, 26, 11, 25, 14, 13, 23, 22, 15, 21, 20,
      15, 22, 23, 13, 14, 25, 11, 26, 17, 18, 20, 21,
      22, 11, 21, 14, 18, 23, 26, 15, 25, 20, 13, 17,
      11, 25, 14, 13, 23, 22, 15, 21, 20, 18, 17, 26,
      18, 20, 21, 15, 22, 23, 13, 14, 25, 11, 26, 17,
      20, 13, 17, 22, 11, 21, 14, 18, 23, 26, 15, 25,
      13, 23, 22, 15, 21, 20, 18, 17, 26, 11, 25, 14,
      11, 26, 17, 18, 20, 21, 15, 22, 23, 13, 14, 25,
      13, 17, 22, 11, 21, 14, 18, 23, 26, 15, 25, 20,
      15, 21, 20, 18, 17, 26, 11, 25, 14, 13, 23, 22]
  | 13 => [
      14, 11, 17, 20, 15, 16, 18, 21, 22, 13, 25, 26, 23,
      20, 26, 18, 11, 13, 15, 23, 21, 17, 25, 16, 14, 22,
      26, 14, 17, 15, 18, 22, 25, 23, 11, 20, 16, 21, 13,
      18, 17, 26, 21, 20, 23, 22, 15, 14, 13, 16, 11, 25,
      11, 15, 21, 25, 14, 20, 18, 13, 23, 17, 16, 22, 26,
      13, 18, 20, 14, 25, 21, 15, 11, 26, 22, 16, 17, 23,
      15, 22, 23, 20, 21, 26, 17, 18, 25, 11, 16, 13, 14,
      23, 25, 22, 18, 15, 17, 14, 26, 13, 21, 16, 20, 11,
      21, 23, 15, 13, 11, 18, 26, 20, 22, 14, 16, 25, 17,
      17, 11, 14, 23, 26, 25, 13, 22, 21, 18, 16, 15, 20,
      25, 20, 13, 17, 22, 11, 21, 14, 18, 23, 16, 26, 15,
      26, 23, 14, 11, 17, 20, 15, 16, 18, 21, 22, 13, 25,
      17, 25, 16, 14, 22, 20, 26, 18, 11, 13, 15, 23, 21,
      25, 23, 11, 20, 16, 21, 13, 26, 14, 17, 15, 18, 22,
      16, 11, 25, 18, 17, 26, 21, 20, 23, 22, 15, 14, 13,
      14, 20, 18, 13, 23, 17, 16, 22, 26, 11, 15, 21, 25]
  | 14 => [
      14, 22, 20, 26, 23, 21, 17, 25, 24, 18, 11, 13, 15, 16,
      15, 18, 17, 26, 14, 13, 24, 21, 20, 16, 11, 25, 23, 22,
      21, 24, 13, 14, 26, 17, 18, 15, 22, 23, 25, 11, 16, 20,
      15, 13, 11, 18, 24, 25, 17, 21, 23, 26, 20, 22, 14, 16,
      18, 23, 16, 24, 26, 15, 25, 20, 13, 17, 22, 11, 21, 14,
      20, 26, 23, 21, 17, 25, 24, 18, 11, 13, 15, 16, 14, 22,
      18, 17, 26, 14, 13, 24, 21, 20, 16, 11, 25, 23, 22, 15,
      20, 21, 24, 13, 14, 26, 17, 18, 15, 22, 23, 25, 11, 16,
      18, 24, 25, 17, 21, 23, 26, 20, 22, 14, 16, 15, 13, 11,
      17, 22, 11, 21, 14, 18, 23, 16, 24, 26, 15, 25, 20, 13,
      16, 14, 22, 20, 26, 23, 21, 17, 25, 24, 18, 11, 13, 15,
      17, 26, 14, 13, 24, 21, 20, 16, 11, 25, 23, 22, 15, 18,
      16, 20, 21, 24, 13, 14, 26, 17, 18, 15, 22, 23, 25, 11,
      17, 21, 23, 26, 20, 22, 14, 16, 15, 13, 11, 18, 24, 25,
      13, 17, 22, 11, 21, 14, 18, 23, 16, 24, 26, 15, 25, 20,
      11, 13, 15, 16, 14, 22, 20, 26, 23, 21, 17, 25, 24, 18]
  | 15 => [
      23, 14, 11, 17, 20, 15, 12, 16, 18, 21, 22, 13, 25, 26, 24,
      13, 26, 23, 11, 20, 12, 18, 22, 25, 24, 14, 17, 15, 16, 21,
      24, 22, 12, 11, 26, 21, 15, 14, 25, 18, 20, 23, 13, 16, 17,
      21, 26, 11, 12, 22, 24, 17, 16, 13, 23, 20, 18, 25, 14, 15,
      22, 18, 12, 20, 11, 23, 26, 13, 21, 16, 15, 17, 14, 24, 25,
      16, 12, 15, 20, 17, 11, 14, 23, 24, 26, 25, 13, 22, 21, 18,
      21, 14, 18, 23, 16, 24, 12, 26, 15, 25, 20, 13, 17, 22, 11,
      20, 15, 12, 16, 18, 21, 22, 13, 25, 26, 24, 23, 14, 11, 17,
      16, 21, 13, 26, 23, 11, 20, 12, 18, 22, 25, 24, 14, 17, 15,
      22, 12, 11, 26, 21, 15, 14, 25, 18, 20, 23, 13, 16, 17, 24,
      15, 21, 26, 11, 12, 22, 24, 17, 16, 13, 23, 20, 18, 25, 14,
      23, 26, 13, 21, 16, 15, 17, 14, 24, 25, 22, 18, 12, 20, 11,
      17, 11, 14, 23, 24, 26, 25, 13, 22, 21, 18, 16, 12, 15, 20,
      15, 25, 20, 13, 17, 22, 11, 21, 14, 18, 23, 16, 24, 12, 26,
      23, 14, 11, 17, 20, 15, 12, 16, 18, 21, 22, 13, 25, 26, 24,
      17, 15, 16, 21, 13, 26, 23, 11, 20, 12, 18, 22, 25, 24, 14]
  | 16 => [
      11, 13, 17, 18, 20, 26, 15, 22, 19, 16, 24, 25, 23, 21, 14, 12,
      17, 25, 11, 13, 14, 22, 23, 21, 24, 18, 19, 16, 15, 12, 20, 26,
      22, 17, 21, 19, 18, 14, 16, 20, 12, 24, 26, 11, 25, 15, 13, 23,
      19, 18, 15, 13, 20, 12, 17, 21, 11, 25, 14, 16, 23, 22, 24, 26,
      22, 14, 13, 11, 25, 17, 26, 20, 12, 15, 16, 19, 18, 24, 21, 23,
      20, 16, 15, 25, 19, 21, 24, 12, 23, 13, 14, 18, 11, 26, 17, 22,
      13, 15, 25, 11, 26, 24, 12, 20, 16, 14, 18, 19, 21, 17, 22, 23,
      11, 26, 15, 18, 23, 13, 17, 12, 19, 21, 14, 25, 20, 16, 24, 22,
      26, 20, 18, 17, 13, 11, 12, 14, 21, 23, 25, 24, 16, 19, 22, 15,
      14, 21, 20, 18, 24, 16, 11, 12, 15, 26, 23, 25, 17, 13, 19, 22,
      21, 11, 12, 24, 13, 20, 18, 14, 26, 19, 22, 17, 16, 23, 25, 15,
      24, 18, 20, 21, 14, 22, 19, 13, 17, 25, 23, 26, 15, 12, 11, 16,
      12, 19, 13, 24, 18, 23, 26, 14, 22, 11, 16, 17, 25, 20, 21, 15,
      14, 12, 23, 26, 24, 25, 19, 13, 15, 22, 20, 21, 17, 18, 11, 16,
      18, 15, 16, 23, 12, 17, 26, 19, 25, 14, 13, 20, 22, 24, 21, 11,
      20, 22, 17, 26, 11, 18, 14, 13, 23, 12, 24, 21, 19, 25, 15, 16]
  | _ => []

theorem hopSequenceArray_length :
    ∀ n < 17, 2 ≤ n → (hopSequenceArray n).length = hopSequenceRowNum n * n := by
  decide +kernel

/-- No number stands twice in the list, or is a bit of `seen`. -/
def distinct : ℕ → List ℕ → Bool
  | _, [] => true
  | seen, a :: l => !seen.testBit a && distinct (seen ||| 1 <<< a) l

theorem nodup_of_distinct {seen : ℕ} {l : List ℕ} (h : distinct seen l) :
    l.Nodup ∧ ∀ a ∈ l, seen.testBit a = false := by
  induction l generalizing seen with
  | nil => exact ⟨List.nodup_nil, nofun⟩
  | cons a l ih =>
      rw [distinct, Bool.and_eq_true, Bool.not_eq_true'] at h
      obtain ⟨hnodup, hnot⟩ := ih h.2
      simp only [Nat.testBit_or, Nat.one_shiftLeft, Nat.testBit_two_pow, Bool.or_eq_false_iff,
        decide_eq_false_iff_not] at hnot
      refine ⟨List.nodup_cons.mpr ⟨fun hmem => (hnot a hmem).2 rfl, hnodup⟩, fun b hb => ?_⟩
      obtain rfl | hb := List.mem_cons.mp hb
      · exact h.1
      · exact (hnot b hb).1

/-- No number stands twice in one of these rows. -/
def rowsDistinct (n : ℕ) : ℕ → List ℕ → Bool
  | 0, _ => true
  | rows + 1, l => distinct 0 (l.take n) && rowsDistinct n rows (l.drop n)

theorem nodup_of_rowsDistinct {n rows : ℕ} {l : List ℕ} (h : rowsDistinct n rows l) :
    ∀ r < rows, ((l.drop (r * n)).take n).Nodup := by
  induction rows generalizing l with
  | zero => exact nofun
  | succ rows ih =>
      rw [rowsDistinct, Bool.and_eq_true] at h
      intro r hr
      cases r with
      | zero =>
          rw [Nat.zero_mul, List.drop_zero]
          exact (nodup_of_distinct h.1).1
      | succ r =>
          have hrow := ih h.2 r (Nat.lt_of_succ_lt_succ hr)
          rwa [List.drop_drop, Nat.add_comm, ← Nat.succ_mul] at hrow

theorem hopSequenceArray_row_nodup :
    ∀ n < 17, 2 ≤ n → ∀ r < hopSequenceRowNum n,
      (((hopSequenceArray n).drop (r * n)).take n).Nodup := by
  have hall : ∀ n < 17, 2 ≤ n →
      rowsDistinct n (hopSequenceRowNum n) (hopSequenceArray n) := by
    decide +kernel
  exact fun n hn hge => nodup_of_rowsDistinct (hall n hn hge)

/-- The table of the header for more than one channel. -/
def hopSequence (numChannels : ℕ) (h : 2 ≤ numChannels) (h' : numChannels < 17) :
    HopSequence where
  rowNum := hopSequenceRowNum numChannels
  colNum := numChannels
  array := hopSequenceArray numChannels
  rowNum_pos := by unfold hopSequenceRowNum; split <;> omega
  colNum_pos := by omega
  colNum_le := by omega
  length_eq := hopSequenceArray_length numChannels h' h
  row_nodup := hopSequenceArray_row_nodup numChannels h' h

end Calipso.Micmac
