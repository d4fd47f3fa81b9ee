import BehaviorTree.Bytes.LittleEndian
import BehaviorTree.Error

/-! A fixed-size memory read and written in slices. -/
namespace BehaviorTree

abbrev Buffer (n : Nat) := Vector UInt8 n

namespace Buffer

variable {n : Nat}

def slice (buf : Buffer n) (start len : Nat) : Checked (Bytes len) :=
  if h : start + len ≤ n then
    .ok ⟨(buf.toArray.extract start (start + len)).toList, by simp; omega⟩
  else .error .outOfBounds

/-- Puts `bs` at `start` and after it; what would fall outside the memory is dropped. -/
def put (buf : Buffer n) (start : Nat) : List UInt8 → Buffer n
  | [] => buf
  | b :: bs => put (buf.setIfInBounds start b) (start + 1) bs

def overwrite (buf : Buffer n) (start : Nat) (bs : List UInt8) : Checked (Buffer n) :=
  if start + bs.length ≤ n then .ok (buf.put start bs) else .error .outOfBounds

theorem getElem?_put (buf : Buffer n) (start : Nat) (bs : List UInt8) (i : Nat) :
    (buf.put start bs)[i]? =
      if start ≤ i ∧ i < start + bs.length ∧ i < n then bs[i - start]? else buf[i]? := by
  induction bs generalizing buf start with
  | nil => simp [put]; omega
  | cons b bs ih =>
    rw [put, ih, Vector.getElem?_setIfInBounds]
    rcases Nat.lt_trichotomy start i with h | h | h
    · have : i - start = (i - (start + 1)) + 1 := by omega
      rw [this, List.getElem?_cons_succ, if_neg (Nat.ne_of_lt h)]
      have : start + 1 ≤ i ∧ i < start + 1 + bs.length ∧ i < n ↔
          start ≤ i ∧ i < start + (bs.length + 1) ∧ i < n := by omega
      simp only [this, List.length_cons]
    · subst h
      by_cases hn : start < n
      · rw [if_neg (by omega), if_pos rfl, if_pos hn, if_pos (by simp [hn])]
        simp
      · rw [if_neg (by omega), if_pos rfl, if_neg hn, if_neg (by omega),
          Vector.getElem?_eq_none (by omega)]
    · rw [if_neg (by omega), if_neg (by omega), if_neg (by omega)]

end Buffer
end BehaviorTree
