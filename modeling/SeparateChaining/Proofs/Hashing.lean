import Mathlib.Data.List.Induction
import Mathlib.Data.List.Perm.Basic
import Mathlib.Data.Nat.Digits.Lemmas
import SeparateChaining.Hashing.Feed

/-!
# What a fold of words comes to

Taking words into a hash one by one rotates the first of them past all
the others. Rotations add up and pass through exclusive or, so the hash
has a closed form: each word turned by the widths of the words after
it, all combined by exclusive or (`foldl_mixWord`).

What the form forgets is then read off it. It does not see how a string
of bytes is cut into writes, and where two bytes are turned equally,
which is every eight places, it does not see which of the two came
first. Up to eight bytes it forgets nothing: each lands on bits of its
own, and the hash is the number that the bytes write.
-/

namespace SeparateChaining

/-! ## Rotations -/

/-- A rotation by a multiple of 64 is a case of its own: both shifts are by nothing then. -/
theorem toBitVec_rotateLeft (x : UInt64) (k : Nat) :
    (rotateLeft x k).toBitVec = x.toBitVec.rotateLeft k := by
  rw [rotateLeft, UInt64.toBitVec_or, UInt64.toBitVec_shiftLeft, UInt64.toBitVec_shiftRight,
    BitVec.rotateLeft_def, BitVec.shiftLeft_eq', BitVec.ushiftRight_eq']
  have hlt : k % 64 < 64 := Nat.mod_lt _ (by decide)
  generalize k % 64 = r at hlt
  have hr : r.toUInt64.toNat = r := Nat.mod_eq_of_lt (by omega)
  rcases Nat.eq_zero_or_pos r with rfl | hpos
  · have hnone : x.toBitVec >>> 64 = 0#64 := BitVec.ushiftRight_eq_zero (Nat.le_refl 64)
    rw [hnone]
    simp
  · have hsub : (64 - r.toUInt64).toNat = 64 - r := by
      have hle : r.toUInt64 ≤ 64 := by
        rw [UInt64.le_iff_toNat_le, hr]
        exact Nat.le_of_lt hlt
      rw [UInt64.toNat_sub_of_le _ _ hle, hr]
      rfl
    have hleft : (r.toUInt64.toBitVec % 64).toNat = r := by
      rw [BitVec.toNat_umod, UInt64.toNat_toBitVec, hr]
      exact Nat.mod_eq_of_lt hlt
    have hright : ((64 - r.toUInt64).toBitVec % 64).toNat = 64 - r := by
      rw [BitVec.toNat_umod, UInt64.toNat_toBitVec, hsub]
      exact Nat.mod_eq_of_lt (show 64 - r < 64 by omega)
    rw [hleft, hright]

theorem rotateLeft_mod (x : UInt64) (k : Nat) : rotateLeft x (k % 64) = rotateLeft x k := by
  rw [rotateLeft, Nat.mod_mod, rotateLeft]

theorem rotateLeft_zero (x : UInt64) : rotateLeft x 0 = x := by
  rw [← UInt64.toBitVec_inj, toBitVec_rotateLeft]
  refine BitVec.eq_of_getMsbD_eq fun i hi => ?_
  rw [BitVec.getMsbD_rotateLeft, decide_eq_true hi, Bool.true_and, Nat.zero_add,
    Nat.mod_eq_of_lt hi]

theorem zero_rotateLeft (k : Nat) : rotateLeft 0 k = 0 := by
  rw [← UInt64.toBitVec_inj, toBitVec_rotateLeft]
  simp [BitVec.rotateLeft_def]

theorem rotateLeft_rotateLeft (x : UInt64) (j k : Nat) :
    rotateLeft (rotateLeft x j) k = rotateLeft x (j + k) := by
  rw [← UInt64.toBitVec_inj, toBitVec_rotateLeft, toBitVec_rotateLeft, toBitVec_rotateLeft]
  refine BitVec.eq_of_getMsbD_eq fun i hi => ?_
  have hlt : (k + i) % 64 < 64 := Nat.mod_lt _ (by decide)
  simp only [BitVec.getMsbD_rotateLeft, hi, hlt, decide_true, Bool.true_and, Nat.add_mod_mod]
  rw [← Nat.add_assoc]

theorem rotateLeft_xor (x y : UInt64) (k : Nat) :
    rotateLeft (x ^^^ y) k = rotateLeft x k ^^^ rotateLeft y k := by
  rw [← UInt64.toBitVec_inj, UInt64.toBitVec_xor, toBitVec_rotateLeft, toBitVec_rotateLeft,
    toBitVec_rotateLeft, UInt64.toBitVec_xor]
  refine BitVec.eq_of_getMsbD_eq fun i hi => ?_
  simp only [BitVec.getMsbD_rotateLeft, BitVec.getMsbD_xor, hi, decide_true, Bool.true_and]

/-- A word whose high byte is empty moves up by a byte and loses nothing. -/
theorem toNat_rotateLeft_eight {x : UInt64} (h : x.toNat < 2 ^ 56) :
    (rotateLeft x 8).toNat = 2 ^ 8 * x.toNat := by
  have hlow : x.toNat >>> 56 = 0 := by
    rw [Nat.shiftRight_eq_div_pow]
    exact Nat.div_eq_of_lt h
  rw [← UInt64.toNat_toBitVec, toBitVec_rotateLeft, BitVec.toNat_rotateLeft, UInt64.toNat_toBitVec]
  show x.toNat <<< 8 % 2 ^ 64 ||| x.toNat >>> 56 = _
  rw [hlow, Nat.or_zero, Nat.shiftLeft_eq, Nat.mod_eq_of_lt (by omega), Nat.mul_comm]

/-! ## The closed form -/

/-- The bits that words take up together. -/
def bitWidth (ws : List Word) : Nat := (ws.map (·.width)).sum

/-- Each word, rotated by the widths of the words after it. -/
def turned (ws : List Word) : List UInt64 :=
  ws.mapIdx fun i w => ⟨w.value.toBitVec.rotateLeft (bitWidth (ws.drop (i + 1)) % 64)⟩

/-- The exclusive or of all words. -/
def combined (xs : List UInt64) : UInt64 := xs.foldr (· ^^^ ·) 0

theorem bitWidth_cons (w : Word) (ws : List Word) : bitWidth (w :: ws) = w.width + bitWidth ws := by
  rw [bitWidth, List.map_cons, List.sum_cons, bitWidth]

theorem turned_cons (w : Word) (ws : List Word) :
    turned (w :: ws) = rotateLeft w.value (bitWidth ws) :: turned ws := by
  rw [turned, List.mapIdx_cons, ← rotateLeft_mod, ← UInt64.ofBitVec_toBitVec (rotateLeft _ _),
    toBitVec_rotateLeft]
  rfl

/-- By induction on the words: the first is turned past the rest like the hash before it. -/
theorem foldl_mixWord (h : UInt64) (ws : List Word) :
    ws.foldl mixWord h = rotateLeft h (bitWidth ws) ^^^ combined (turned ws) := by
  induction ws generalizing h with
  | nil =>
      rw [List.foldl_nil, show bitWidth [] = 0 from rfl, rotateLeft_zero]
      exact (UInt64.xor_zero).symm
  | cons w ws ih =>
      rw [List.foldl_cons, ih, mixWord, rotateLeft_xor, rotateLeft_rotateLeft, turned_cons,
        bitWidth_cons, UInt64.xor_assoc]
      rfl

theorem foldWords_eq (ws : List Word) : foldWords ws = combined (turned ws) := by
  rw [foldWords, foldl_mixWord, zero_rotateLeft, UInt64.zero_xor]

/-! ## Strings of bytes -/

/-- How bytes are cut into writes does not show in the words. -/
theorem words_flatten (pieces : List (List UInt8)) :
    (pieces.map Write.run).flatMap Write.words = (Write.run pieces.flatten).words := by
  rw [List.flatMap_map, Write.words, List.map_flatten, List.flatMap_def]
  rfl

theorem bitWidth_words (bytes : List UInt8) :
    bitWidth (Write.run bytes).words = 8 * bytes.length := by
  rw [bitWidth, Write.words, List.map_map]
  show (bytes.map fun _ => 8).sum = _
  rw [List.map_const', List.sum_replicate_nat, Nat.mul_comm]

/-- Each byte, rotated by eight bits for every byte after it. -/
theorem turned_words (bytes : List UInt8) :
    turned (Write.run bytes).words
      = bytes.mapIdx fun i b => rotateLeft b.toUInt64 (8 * (bytes.length - (i + 1))) := by
  induction bytes with
  | nil => rfl
  | cons b bytes ih =>
      rw [show (Write.run (b :: bytes)).words = ⟨b.toUInt64, 8⟩ :: (Write.run bytes).words from rfl,
        turned_cons, bitWidth_words, ih, List.mapIdx_cons]
      simp only [List.length_cons, Nat.add_sub_add_right, Nat.zero_add, Nat.add_sub_cancel]

theorem combined_perm {xs ys : List UInt64} (h : xs.Perm ys) : combined xs = combined ys :=
  h.foldr_eq 0

/-- Two bytes with a multiple of eight places between them are turned equally. -/
theorem foldl_mixWord_swap (h : UInt64) {bytes : List UInt8} {i j : Nat} (hi : i < bytes.length)
    (hj : j < bytes.length) (hij : i % 8 = j % 8) :
    (Write.run ((bytes.set i bytes[j]).set j bytes[i])).words.foldl mixWord h
      = (Write.run bytes).words.foldl mixWord h := by
  have hturn : ∀ b : UInt8, rotateLeft b.toUInt64 (8 * (bytes.length - (i + 1)))
      = rotateLeft b.toUInt64 (8 * (bytes.length - (j + 1))) := by
    intro b
    rw [← rotateLeft_mod, ← rotateLeft_mod _ (8 * (bytes.length - (j + 1)))]
    congr 1
    omega
  have hperm : (turned (Write.run ((bytes.set i bytes[j]).set j bytes[i])).words).Perm
      (turned (Write.run bytes).words) := by
    rw [turned_words, turned_words, List.length_set, List.length_set, List.mapIdx_set,
      List.mapIdx_set, hturn, ← hturn bytes[i]]
    generalize hterms : (bytes.mapIdx fun k b => rotateLeft b.toUInt64
      (8 * (bytes.length - (k + 1)))) = terms
    have hlength : terms.length = bytes.length := by rw [← hterms, List.length_mapIdx]
    have hi' : i < terms.length := hlength ▸ hi
    have hj' : j < terms.length := hlength ▸ hj
    have hterm : ∀ k (hk : k < bytes.length) (hk' : k < terms.length),
        rotateLeft bytes[k].toUInt64 (8 * (bytes.length - (k + 1))) = terms[k] := by
      intro k hk hk'
      subst hterms
      rw [List.getElem_mapIdx]
    rw [hterm i hi hi', hterm j hj hj']
    exact List.set_set_perm hi' hj'
  rw [foldl_mixWord, foldl_mixWord, bitWidth_words, bitWidth_words, List.length_set,
    List.length_set, combined_perm hperm]

/-- A byte behind a number that leaves room for it. -/
theorem toNat_mixWord_byte {x : UInt64} (h : x.toNat < 2 ^ 56) (b : UInt8) :
    (mixWord x ⟨b.toUInt64, 8⟩).toNat = b.toNat + 256 * x.toNat := by
  have hb : b.toNat < 2 ^ 8 := b.toNat_lt
  show (rotateLeft x 8 ^^^ b.toUInt64).toNat = _
  rw [UInt64.toNat_xor, toNat_rotateLeft_eight h, UInt8.toNat_toUInt64,
    show b.toNat + 256 * x.toNat = 2 ^ 8 * x.toNat + b.toNat from Nat.add_comm ..]
  refine Nat.eq_of_testBit_eq fun k => ?_
  rw [Nat.testBit_xor, Nat.testBit_two_pow_mul, Nat.testBit_two_pow_mul_add _ hb]
  split
  · rw [decide_eq_false (by omega), Bool.false_and, Bool.false_xor]
  · have hnone : b.toNat.testBit k = false := Nat.testBit_lt_two_pow
      (Nat.lt_of_lt_of_le hb (Nat.pow_le_pow_right (by decide) (by omega)))
    rw [decide_eq_true (by omega), Bool.true_and, hnone, Bool.xor_false]

/-- By induction on the bytes from the last: those before it leave the high byte empty. -/
theorem toNat_foldWords_bytes {bytes : List UInt8} (h : bytes.length ≤ 8) :
    (foldWords (Write.run bytes).words).toNat
      = Nat.ofDigits 256 (bytes.reverse.map UInt8.toNat) := by
  induction bytes using List.reverseRecOn with
  | nil => rfl
  | append_singleton bytes b ih =>
      rw [List.length_append, List.length_singleton] at h
      have hbytes := ih (by omega)
      have hroom : (foldWords (Write.run bytes).words).toNat < 2 ^ 56 := by
        have hlt : Nat.ofDigits 256 (bytes.reverse.map UInt8.toNat)
            < 256 ^ (bytes.reverse.map UInt8.toNat).length := by
          refine Nat.ofDigits_lt_base_pow_length (by decide) fun d hd => ?_
          obtain ⟨b', -, rfl⟩ := List.mem_map.1 hd
          exact b'.toNat_lt
        rw [List.length_map, List.length_reverse] at hlt
        rw [hbytes]
        calc _ < 256 ^ bytes.length := hlt
          _ ≤ 256 ^ 7 := Nat.pow_le_pow_right (by decide) (by omega)
          _ = 2 ^ 56 := by decide
      have hlast : foldWords (Write.run (bytes ++ [b])).words
          = mixWord (foldWords (Write.run bytes).words) ⟨b.toUInt64, 8⟩ := by
        simp only [foldWords, Write.words, List.map_append, List.foldl_append]
        rfl
      rw [hlast, toNat_mixWord_byte hroom, hbytes, List.reverse_concat, List.map_cons,
        Nat.ofDigits_cons]

/-! ## Sequences of writes -/

/-- The hash of any writes is the exclusive or of their words, each rotated by the widths of the
words after it. So it does not depend on how bytes are cut into writes, nor on the order of two
bytes of one string with a multiple of eight places between them, whatever is written before and
after. A number of at most 64 bits, or a string of at most eight bytes, hashes to itself, the bytes
read with the highest first. -/
theorem foldWrites_turned :
    (∀ ws : List Write, foldWrites ws = combined (turned (ws.flatMap Write.words)))
    ∧ (∀ (before after : List Write) (pieces : List (List UInt8)),
      foldWrites (before ++ pieces.map .run ++ after)
        = foldWrites (before ++ .run pieces.flatten :: after))
    ∧ (∀ width n : Nat, width ≤ 64 → n < 2 ^ width →
      (foldWrites (Feed.unsigned width n)).toNat = n)
    ∧ (∀ bytes : List UInt8, bytes.length ≤ 8 →
      (foldWrites [.run bytes]).toNat = Nat.ofDigits 256 (bytes.reverse.map UInt8.toNat))
    ∧ ∀ (before after : List Write) (bytes : List UInt8) (i j : Nat) (hi : i < bytes.length)
      (hj : j < bytes.length), i % 8 = j % 8 →
      foldWrites (before ++ .run ((bytes.set i bytes[j]).set j bytes[i]) :: after)
        = foldWrites (before ++ .run bytes :: after) := by
  refine ⟨fun ws => foldWords_eq _, ?_, ?_, ?_, ?_⟩
  · intro before after pieces
    simp only [foldWrites, List.flatMap_append, List.flatMap_cons, words_flatten,
      List.append_assoc]
  · intro width n hwidth hn
    have hword : foldWrites (Feed.unsigned width n) = n.toUInt64 := by
      show rotateLeft 0 width ^^^ (BitVec.ofNat width n).toNat.toUInt64 = n.toUInt64
      rw [zero_rotateLeft, UInt64.zero_xor, BitVec.toNat_ofNat, Nat.mod_eq_of_lt hn]
    rw [hword]
    exact Nat.mod_eq_of_lt (Nat.lt_of_lt_of_le hn (Nat.pow_le_pow_right (by decide) hwidth))
  · intro bytes hlength
    rw [foldWrites, List.flatMap_singleton]
    exact toNat_foldWords_bytes hlength
  · intro before after bytes i j hi hj hij
    simp only [foldWrites, foldWords, List.flatMap_append, List.flatMap_cons, List.foldl_append,
      foldl_mixWord_swap _ hi hj hij]

end SeparateChaining
