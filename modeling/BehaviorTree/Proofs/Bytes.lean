import BehaviorTree.Bytes.Buffer

/-! # Windows of byte strings, and strings put over them -/

namespace BehaviorTree

/-- The `n` bytes from `o` on. -/
def window (l : List UInt8) (o n : Nat) : List UInt8 := (l.drop o).take n

/-- Puts `bs` over the bytes from `o` on. -/
def overlay (l : List UInt8) (o : Nat) (bs : List UInt8) : List UInt8 :=
  l.take o ++ bs ++ l.drop (o + bs.length)

theorem getElem?_window (l : List UInt8) (o n k : Nat) :
    (window l o n)[k]? = if k < n then l[o + k]? else none := by
  rw [window, List.getElem?_take, List.getElem?_drop]

theorem length_window {l : List UInt8} {o n : Nat} (h : o + n ≤ l.length) : (window l o n).length = n := by
  simp only [window, List.length_take, List.length_drop]
  omega

theorem window_all {l : List UInt8} {n : Nat} (h : l.length = n) : window l 0 n = l := by
  rw [window, List.drop_zero, List.take_of_length_le (Nat.le_of_eq h)]

theorem getElem?_overlay {l : List UInt8} {o : Nat} {bs : List UInt8} (h : o ≤ l.length) (k : Nat) :
    (overlay l o bs)[k]? = if o ≤ k ∧ k < o + bs.length then bs[k - o]? else l[k]? := by
  rw [overlay, List.append_assoc, List.getElem?_append, List.length_take, Nat.min_eq_left h,
    List.getElem?_append, List.getElem?_take, List.getElem?_drop]
  by_cases h₁ : k < o
  · rw [if_pos h₁, if_pos h₁, if_neg (by omega)]
  · by_cases h₂ : k - o < bs.length
    · rw [if_neg h₁, if_pos h₂, if_pos (by omega)]
    · rw [if_neg h₁, if_neg h₂, if_neg (by omega)]
      congr 1
      omega

theorem length_overlay {l : List UInt8} {o : Nat} {bs : List UInt8} (h : o + bs.length ≤ l.length) :
    (overlay l o bs).length = l.length := by
  simp only [overlay, List.length_append, List.length_take, List.length_drop]
  omega

@[simp] theorem overlay_all {l bs : List UInt8} (h : bs.length = l.length) : overlay l 0 bs = bs := by
  simp [overlay, h]

theorem overlay_singleton {l : List UInt8} {k : Nat} (h : k < l.length) (v : UInt8) :
    overlay l k [v] = l.set k v := by
  apply List.ext_getElem?
  intro j
  rw [getElem?_overlay (by omega), List.getElem?_set]
  by_cases hj : k = j
  · subst hj
    simp [h]
  · rw [if_neg (by simp only [List.length_singleton]; omega), if_neg hj]

theorem window_overlay_of_disjoint {l : List UInt8} {o p n : Nat} {bs : List UInt8}
    (ho : o ≤ l.length) (h : p + n ≤ o ∨ o + bs.length ≤ p) :
    window (overlay l o bs) p n = window l p n := by
  apply List.ext_getElem?
  intro k
  rw [getElem?_window, getElem?_window]
  split
  · rw [getElem?_overlay ho, if_neg (by omega)]
  · rfl

theorem window_overlay {l : List UInt8} {o p n : Nat} {bs : List UInt8} (hl : p + n ≤ l.length)
    (h : o + bs.length ≤ n) : window (overlay l (p + o) bs) p n = overlay (window l p n) o bs := by
  apply List.ext_getElem?
  intro k
  rw [getElem?_window, getElem?_overlay (by omega), getElem?_overlay (by rw [length_window hl]; omega),
    getElem?_window]
  by_cases hk : k < n
  · rw [if_pos hk, if_pos hk, show p + k - (p + o) = k - o by omega]
    by_cases h₁ : o ≤ k ∧ k < o + bs.length
    · rw [if_pos (by omega), if_pos h₁]
    · rw [if_neg (by omega), if_neg h₁]
  · rw [if_neg hk, if_neg (by omega), if_neg hk]

theorem window_overlay_self {l : List UInt8} {o n : Nat} {bs : List UInt8} (ho : o ≤ l.length)
    (hn : bs.length = n) : window (overlay l o bs) o n = bs := by
  rw [window, overlay, List.append_assoc, List.drop_left' (by rw [List.length_take]; omega),
    List.take_left' hn]

namespace Buffer

variable {n : Nat}

theorem slice_eq (buf : Buffer n) {start len : Nat} (h : start + len ≤ n) :
    ∃ hl, buf.slice start len = .ok ⟨window buf.toList start len, hl⟩ := by
  have hlen : (window buf.toList start len).length = len := length_window (by simpa using h)
  refine ⟨hlen, ?_⟩
  have he : (buf.toArray.extract start (start + len)).toList = window buf.toList start len := by
    rw [Array.toList_extract, List.extract_eq_take_drop, Nat.add_sub_cancel_left]
    rfl
  rw [slice, dif_pos h]
  exact congrArg Except.ok (Subtype.ext he)

theorem overwrite_eq (buf : Buffer n) (start : Nat) (bs : List UInt8) (h : start + bs.length ≤ n) :
    ∃ buf', buf.overwrite start bs = .ok buf' ∧ buf'.toList = overlay buf.toList start bs := by
  refine ⟨buf.put start bs, by rw [overwrite, if_pos h], ?_⟩
  apply List.ext_getElem?
  intro k
  rw [getElem?_overlay (by simp; omega), Vector.getElem?_toList, getElem?_put, Vector.getElem?_toList]
  by_cases hk : start ≤ k ∧ k < start + bs.length
  · rw [if_pos (by omega), if_pos hk]
  · rw [if_neg (by omega), if_neg hk]

end Buffer

end BehaviorTree
