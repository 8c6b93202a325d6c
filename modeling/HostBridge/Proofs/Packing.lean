import HostBridge.Proofs.Layout

/-!
# Positions as words

The host treats the word of a position as two halves. It shifts the start into the high half and
puts the end into the low half, without its sign; it reads the start back with a shift that keeps
the sign, and the end by cutting off the rest of the word. `Position.pack` and `Position.unpack` get
there with integer arithmetic. An offset may be negative, as both are where a node has no text, so
what has to be seen is that the sign of neither half gets into the other one.

* `toInt_ofHalves`, `toInt_highHalf`, `toInt_lowHalf` — what the halves of a word are as integers;
* `pack_eq_ofHalves`, `unpack_eq_halves` — packing and unpacking are what the host does;
* `pack_bijection` — pairs of 32-bit offsets and words correspond one to one, and exactly one word
  is that of a node without text.
-/

namespace HostBridge.Position

/-! ### The halves of a word -/

/-- **The word with two given halves**: the first one shifted into place, the second one without its
sign. -/
def ofHalves (high low : Int32) : Int64 := high.toInt64 <<< 32 ||| low.toUInt32.toUInt64.toInt64

/-- The high half of a word, with its sign. -/
def highHalf (word : Int64) : Int32 := (word >>> 32).toInt32

/-- The low half of a word, with its sign. -/
def lowHalf (word : Int64) : Int32 := word.toInt32

/-- The halves do not overlap: the bits of the one are followed by the bits of the other. -/
theorem toBitVec_ofHalves (high low : Int32) :
    (ofHalves high low).toBitVec = high.toBitVec ++ low.toBitVec := by
  have hbits : (ofHalves high low).toBitVec =
      high.toBitVec.signExtend 64 <<< 32 ||| low.toBitVec.setWidth 64 := by
    rw [ofHalves, Int64.toBitVec_or, Int64.toBitVec_shiftLeft, Int32.toBitVec_toInt64,
      UInt64.toBitVec_toInt64, UInt32.toBitVec_toUInt64, Int32.toBitVec_toUInt32]
    rfl
  rw [hbits]
  ext i hi
  rw [BitVec.getElem_append, BitVec.getElem_or, BitVec.getElem_shiftLeft, BitVec.getElem_setWidth]
  by_cases hlow : i < 32
  · rw [dif_pos hlow, decide_eq_true hlow, BitVec.getLsbD_eq_getElem hlow]
    rfl
  · -- the shift drops the copies of the sign of the high half, and the low half has none
    have hsign : (high.toBitVec.signExtend 64)[i - 32] = high.toBitVec[i - 32] := by
      rw [BitVec.getElem_signExtend, dif_pos (by omega)]
    have hzero : low.toBitVec.getLsbD i = false := BitVec.getLsbD_of_ge _ _ (by omega)
    rw [dif_neg hlow, hsign, hzero, decide_eq_false hlow, Bool.or_false]
    rfl

theorem toInt_ofHalves (high low : Int32) :
    (ofHalves high low).toInt = high.toInt * 0x100000000 + low.toInt % 0x100000000 := by
  have hunsigned : low.toInt % 0x100000000 = (low.toBitVec.toNat : Int) := by
    rw [← Int32.toInt_toBitVec, BitVec.toInt_eq_toNat_bmod]
    exact Int.bmod_emod.trans
      (Int.emod_eq_of_lt (Int.natCast_nonneg _) (Int.ofNat_lt.2 low.toBitVec.isLt))
  rw [← Int64.toInt_toBitVec, toBitVec_ofHalves, BitVec.toInt_append, if_neg (by decide),
    hunsigned, Int32.toInt_toBitVec, Int.mul_comm]
  rfl

theorem toInt_highHalf (word : Int64) : (highHalf word).toInt = word.toInt / 0x100000000 := by
  have hshift : (word >>> 32).toInt = word.toInt / 0x100000000 := by
    rw [← Int64.toInt_toBitVec, Int64.toBitVec_shiftRight]
    calc (word.toBitVec.sshiftRight 32).toInt
        = word.toInt >>> (32 : Nat) := BitVec.toInt_sshiftRight
      _ = word.toInt / 0x100000000 := Int.shiftRight_eq_div_pow _ _
  have hlower := word.le_toInt
  have hupper := word.toInt_lt
  rw [highHalf, Int64.toInt_toInt32, hshift]
  exact Int.bmod_eq_of_le (by omega) (by omega)

theorem toInt_lowHalf (word : Int64) : (lowHalf word).toInt = word.toInt.bmod 0x100000000 :=
  Int64.toInt_toInt32 word

/-! ### Packing and unpacking by halves -/

/-- **Packing** two offsets makes them the halves of a word. -/
theorem pack_eq_ofHalves (start stop : Int32) :
    pack ⟨start.toInt, stop.toInt⟩ = ofHalves start stop := by
  rw [pack, ← toInt_ofHalves, Int64.ofInt_toInt]

/-- **Unpacking** a word gives its halves. -/
theorem unpack_eq_halves (word : Int64) :
    unpack word = ⟨(highHalf word).toInt, (lowHalf word).toInt⟩ := by
  rw [unpack, toInt_highHalf, toInt_lowHalf]

/-- A word has room for any two 32-bit offsets, whatever their signs. -/
theorem unpack_pack_offsets (start stop : Int32) :
    unpack (pack ⟨start.toInt, stop.toInt⟩) = ⟨start.toInt, stop.toInt⟩ :=
  unpack_pack ⟨start.le_toInt, start.toInt_lt⟩ ⟨stop.le_toInt, stop.toInt_lt⟩

/-! ### Nodes without text -/

theorem isNonExistent_iff {p : Position} : p.isNonExistent ↔ p = nonExistent := decide_eq_true_iff

/-- Two offsets are those of a node without text only if they are just the two of the mark. -/
theorem isNonExistent_offsets_iff {start stop : Int32} :
    isNonExistent ⟨start.toInt, stop.toInt⟩ ↔ start = -1 ∧ stop = -2 := by
  rw [isNonExistent_iff, nonExistent, mk.injEq, ← Int32.toInt_inj, ← Int32.toInt_inj]
  rfl

/-- A node without text has one word, so comparing words is enough to find it. -/
theorem isNonExistent_unpack_iff {word : Int64} :
    (unpack word).isNonExistent ↔ word = pack nonExistent := by
  rw [isNonExistent_iff]
  constructor
  · intro h
    rw [← h, pack_unpack]
  · rintro rfl
    exact unpack_pack_offsets (-1) (-2)

/-! ### The correspondence -/

/-- **Packing is a bijection** between the pairs of 32-bit offsets, negative ones included, and the
64-bit words. Two offsets become the halves of a word, which gives them back unchanged; any word
unpacks to two such offsets, which pack to the same word again. The node without text is told by
its offsets as well as by its word. -/
theorem pack_bijection :
    (∀ start stop : Int32,
      pack ⟨start.toInt, stop.toInt⟩ = ofHalves start stop ∧
      unpack (pack ⟨start.toInt, stop.toInt⟩) = ⟨start.toInt, stop.toInt⟩ ∧
      ((unpack (pack ⟨start.toInt, stop.toInt⟩)).isNonExistent ↔ start = -1 ∧ stop = -2)) ∧
    ∀ word : Int64,
      unpack word = ⟨(highHalf word).toInt, (lowHalf word).toInt⟩ ∧
      pack (unpack word) = word ∧
      ((unpack word).isNonExistent ↔ word = pack nonExistent) := by
  refine ⟨fun start stop => ⟨pack_eq_ofHalves start stop, unpack_pack_offsets start stop, ?_⟩,
    fun word => ⟨unpack_eq_halves word, pack_unpack word, isNonExistent_unpack_iff⟩⟩
  rw [unpack_pack_offsets]
  exact isNonExistent_offsets_iff

/-- A negative end stays in its half. Both offsets of a node without text are negative, and so is its
word. -/
example : pack ⟨0, -1⟩ = 0xFFFFFFFF ∧ pack nonExistent = -2 := by decide

end HostBridge.Position
