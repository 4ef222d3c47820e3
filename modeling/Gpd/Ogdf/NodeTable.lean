import Gpd.Cxx.String

/-! The sizes of a graph's node tables, which a new node enlarges by doubling. -/
namespace Gpd.Ogdf
open Cxx

/-- `start <<= 1` on a 32-bit `int`. -/
def doubled (start : ℤ) : ℤ := (2 * start).bmod (2 ^ 32)

/-- The loop `while (start <= idCount) start <<= 1;`, with so many tests at most. -/
def doubling : ℕ → ℤ → ℤ → Option ℤ
  | 0, _, _ => none
  | tests + 1, start, idCount =>
    if start ≤ idCount then doubling tests (doubled start) idCount else some start

/-- After 32 rounds nothing is left of `start`. -/
def nextPower2 (start idCount : ℤ) : Except Fault ℤ :=
  match doubling 33 start idCount with
  | some size => .ok size
  | none => .error .endlessLoop

/-- One more than the largest index so far, and the size of the node arrays. -/
structure NodeTable where
  nodeIdCount : ℤ
  nodeArrayTableSize : ℤ
  deriving DecidableEq, Repr

namespace NodeTable

/-- An empty graph has node arrays of `MIN_NODE_TABLE_SIZE`. -/
def initial : NodeTable := ⟨0, 2 ^ 4⟩

/-- What `newNode(index)` does before it creates the node. -/
def enlarge (table : NodeTable) (index : ℤ) : Except Fault NodeTable :=
  if table.nodeIdCount ≤ index then
    if table.nodeArrayTableSize ≤ index then do
      return ⟨index + 1, ← nextPower2 table.nodeArrayTableSize index⟩
    else
      .ok { table with nodeIdCount := index + 1 }
  else
    .ok table

end NodeTable

def NextPower2Ends (start idCount : ℤ) : Prop := ∃ k, idCount < doubled^[k] start

section Doubling

lemma doubling_eq_none {tests : ℕ} {start idCount : ℤ} :
    doubling tests start idCount = none ↔ ∀ k < tests, doubled^[k] start ≤ idCount := by
  induction tests generalizing start with
  | zero => simp [doubling]
  | succ tests ih =>
    rw [doubling, Nat.forall_lt_succ_left']
    split_ifs with h
    · simpa [h] using ih
    · simp [h]

lemma doubled_iterate_succ (k : ℕ) (start : ℤ) :
    doubled^[k + 1] start = (2 ^ (k + 1) * start).bmod (2 ^ 32) := by
  induction k with
  | zero => simp [doubled]
  | succ k ih =>
    rw [Function.iterate_succ_apply', ih, doubled, Int.mul_bmod_bmod, pow_succ' 2 (k + 1),
      mul_assoc]

/-- More than 32 rounds change nothing. -/
theorem nextPower2_isOk (start idCount : ℤ) :
    (∃ size, nextPower2 start idCount = .ok size) ↔ NextPower2Ends start idCount := by
  have hends : NextPower2Ends start idCount ↔ doubling 33 start idCount ≠ none := by
    rw [Ne, doubling_eq_none, NextPower2Ends]
    simp only [not_forall, not_le, exists_prop]
    constructor
    · rintro ⟨k, hk⟩
      rcases Nat.lt_or_ge k 33 with hlt | hge
      · exact ⟨k, hlt, hk⟩
      · obtain ⟨k, rfl⟩ := Nat.exists_eq_add_of_le' (show 1 ≤ k by omega)
        have hzero : ∀ j, 31 ≤ j → doubled^[j + 1] start = 0 := fun j hj => by
          rw [doubled_iterate_succ]
          apply Int.bmod_eq_zero_of_dvd
          exact (pow_dvd_pow 2 (by omega : 32 ≤ j + 1)).mul_right start
        exact ⟨32, by decide, by rwa [hzero 31 le_rfl, ← hzero k (by omega)]⟩
    · rintro ⟨k, _, hk⟩
      exact ⟨k, hk⟩
  rw [hends, nextPower2]
  cases doubling 33 start idCount <;> simp

lemma doubled_pow {k : ℕ} (hk : k < 30) : doubled (2 ^ k) = 2 ^ (k + 1) := by
  have hle : (2 : ℤ) ^ (k + 1) ≤ 2 ^ 30 := pow_le_pow_right₀ (by decide) (by omega)
  have hpos : (0 : ℤ) < 2 ^ (k + 1) := by positivity
  rw [doubled, ← pow_succ', Int.bmod_def]
  omega

lemma doubled_iterate_pow {k m : ℕ} (h : k + m ≤ 30) : doubled^[m] (2 ^ k) = 2 ^ (k + m) := by
  induction m with
  | zero => rfl
  | succ m ih =>
    rw [Function.iterate_succ_apply', ih (by omega), doubled_pow (by omega), Nat.add_assoc]

lemma doubled_le {k : ℕ} (hk : k ≤ 30) (m : ℕ) : doubled^[m] (2 ^ k) ≤ 2 ^ 30 := by
  have hinv : (∃ j ≤ 30, doubled^[m] (2 ^ k) = 2 ^ j) ∨ doubled^[m] (2 ^ k) = -2 ^ 31 ∨
      doubled^[m] (2 ^ k) = 0 := by
    induction m with
    | zero => exact .inl ⟨k, hk, rfl⟩
    | succ m ih =>
      rw [Function.iterate_succ_apply']
      rcases ih with ⟨j, hj, he⟩ | he | he
      · rcases hj.lt_or_eq with hlt | rfl
        · exact .inl ⟨j + 1, hlt, by rw [he, doubled_pow hlt]⟩
        · exact .inr (.inl (by rw [he]; decide))
      · exact .inr (.inr (by rw [he]; decide))
      · exact .inr (.inr (by rw [he]; decide))
  rcases hinv with ⟨j, hj, he⟩ | he | he
  · rw [he]
    exact pow_le_pow_right₀ (by decide) hj
  · omega
  · omega

/-- From a table of a power of two, the doubling ends exactly for indices below `2 ^ 30`. -/
theorem nextPower2Ends_iff {k : ℕ} (hk : k ≤ 30) {idCount : ℤ} :
    NextPower2Ends (2 ^ k) idCount ↔ idCount < 2 ^ 30 := by
  constructor
  · rintro ⟨m, hm⟩
    exact hm.trans_le (doubled_le hk m)
  · intro h
    refine ⟨30 - k, ?_⟩
    rwa [doubled_iterate_pow (by omega), Nat.add_sub_cancel' hk]

lemma doubling_pow {tests k : ℕ} (hk : k ≤ 30) {idCount size : ℤ} (hlt : idCount < 2 ^ 30)
    (h : doubling tests (2 ^ k) idCount = some size) :
    (∃ j ≤ 30, size = 2 ^ j) ∧ idCount < size := by
  induction tests generalizing k with
  | zero => cases h
  | succ tests ih =>
    rw [doubling] at h
    split_ifs at h with hle
    · have hk' : k < 30 := by
        rcases hk.lt_or_eq with hk | rfl
        · exact hk
        · omega
      rw [doubled_pow hk'] at h
      exact ih hk' h
    · obtain rfl := Option.some.inj h
      exact ⟨⟨k, hk, rfl⟩, not_le.mp hle⟩

end Doubling

namespace NodeTable

/-- The tables have the size of a power of two and room for every index so far. -/
structure Sound (table : NodeTable) : Prop where
  size : ∃ k ≤ 30, table.nodeArrayTableSize = 2 ^ k
  room : table.nodeIdCount ≤ table.nodeArrayTableSize

lemma sound_initial : initial.Sound := ⟨⟨4, by decide, rfl⟩, by decide⟩

variable {table : NodeTable} {index : ℤ}

lemma Sound.size_le (h : table.Sound) : table.nodeArrayTableSize ≤ 2 ^ 30 := by
  obtain ⟨k, hk, he⟩ := h.size
  rw [he]
  exact pow_le_pow_right₀ (by decide) hk

theorem Sound.enlarge (h : table.Sound) (hi : index < 2 ^ 30) :
    ∃ table', table.enlarge index = .ok table' ∧ table'.Sound := by
  obtain ⟨k, hk, he⟩ := h.size
  unfold NodeTable.enlarge
  split_ifs with hcount hsize
  · obtain ⟨size, hs⟩ := (nextPower2_isOk _ _).mpr ((nextPower2Ends_iff hk).mpr hi)
    refine ⟨⟨index + 1, size⟩, by rw [he, hs]; rfl, ?_⟩
    have hpow : doubling 33 (2 ^ k) index = some size := by
      rw [nextPower2] at hs
      split at hs
      · rename_i hd
        rw [hd, Except.ok.inj hs]
      · cases hs
    obtain ⟨hsize', hlt⟩ := doubling_pow hk hi hpow
    exact ⟨hsize', Int.add_one_le_iff.mpr hlt⟩
  · exact ⟨_, rfl, h.size, Int.add_one_le_iff.mpr (not_le.mp hsize)⟩
  · exact ⟨_, rfl, h⟩

theorem Sound.enlarge_endless (h : table.Sound) (hi : 2 ^ 30 ≤ index) :
    table.enlarge index = .error .endlessLoop := by
  obtain ⟨k, hk, he⟩ := h.size
  have hle := h.size_le
  have hroom := h.room
  have hnot : ¬∃ size, nextPower2 (2 ^ k) index = .ok size := by
    rw [nextPower2_isOk, nextPower2Ends_iff hk]
    exact not_lt.mpr hi
  rw [NodeTable.enlarge, if_pos (by omega), if_pos (by omega), he]
  cases hs : nextPower2 (2 ^ k) index with
  | ok size => exact absurd ⟨size, hs⟩ hnot
  | error e =>
    rw [nextPower2] at hs
    split at hs
    · cases hs
    · exact hs ▸ rfl

end NodeTable

end Gpd.Ogdf
