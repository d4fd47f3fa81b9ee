import BehaviorTree.MessagePack.Reader
import BehaviorTree.MessagePack.Writer

/-!
# Written MessagePack is read back

`Reads r bs a`: the reader `r` takes `bs` off the front of any byte string and returns `a`. What a number, a
header or an array of such is written as is read so, in each width.
-/

namespace BehaviorTree

namespace MessagePack

variable {α β : Type} {a : α} {bs bs' : List UInt8} {room n : Nat}

def Reads (r : Reader α) (bs : List UInt8) (a : α) : Prop := ∀ rest, r (bs ++ rest) = some (a, rest)

namespace Reads

theorem pure (a : α) : Reads (pure a) [] a := fun _ => rfl

theorem bind {x : Reader α} {f : α → Reader β} {c : β} (hx : Reads x bs a) (hf : Reads (f a) bs' c) :
    Reads (x >>= f) (bs ++ bs') c := by
  intro rest
  change (x (bs ++ bs' ++ rest)).bind (fun p => f p.1 p.2) = some (c, rest)
  rw [List.append_assoc, hx, Option.bind_some, hf]

theorem map {x : Reader α} (hx : Reads x bs a) (f : α → β) : Reads (f <$> x) bs (f a) := by
  intro rest
  change (x (bs ++ rest)).bind (fun p => some (f p.1, p.2)) = some (f a, rest)
  rw [hx, Option.bind_some]

/-- What one reader takes off the front has no other such beginning. -/
theorem cancel {r : Reader α} {a' : α} {rest rest' : List UInt8} (h : Reads r bs a) (h' : Reads r bs' a')
    (heq : bs ++ rest = bs' ++ rest') : a = a' ∧ rest = rest' := by
  have hr := h rest
  rw [heq, h' rest', Option.some.injEq, Prod.mk.injEq] at hr
  exact ⟨hr.1.symm, hr.2.symm⟩

end Reads

/-! ## Numbers in a fixed width -/

theorem length_bigEndian : ∀ width n : Nat, (bigEndian width n).length = width
  | 0, _ => rfl
  | width + 1, n => congrArg Nat.succ (length_bigEndian width n)

theorem foldl_bigEndian : ∀ width n start : Nat, (bigEndian width n).foldl (fun m b => 256 * m + b.toNat) start =
    start * Bytes.bound width + n % Bytes.bound width
  | 0, n, start => by simp [bigEndian, Bytes.bound, Nat.mod_one]
  | width + 1, n, start => by
      rw [bigEndian, List.foldl_cons, foldl_bigEndian width n, UInt8.toNat_ofNat', Bytes.bound,
        Nat.mul_comm 256 (Bytes.bound width), Nat.mod_mul, Nat.add_mul, Nat.mul_comm 256 start, Nat.mul_assoc,
        Nat.mul_comm 256 (Bytes.bound width), Nat.mul_comm (_ % 2 ^ 8), show 2 ^ 8 = 256 from rfl]
      omega

theorem reads_bytes (bs : List UInt8) : Reads (readBytes bs.length) bs bs := by
  intro rest
  rw [readBytes, if_pos (by simp), List.take_left, List.drop_left]

theorem reads_fixed (width n : Nat) : Reads (readNat width) (bigEndian width n) (n % Bytes.bound width) := by
  have hbytes := reads_bytes (bigEndian width n)
  rw [length_bigEndian] at hbytes
  have hmap := hbytes.map ofBigEndian
  rwa [ofBigEndian, foldl_bigEndian, Nat.zero_mul, Nat.zero_add] at hmap

/-! ## Values -/

theorem reads_header {byte : UInt8} {h : Header} (hb : Header.ofByte? byte = some h) : Reads readHeader [byte] h := by
  intro rest
  rw [List.singleton_append, readHeader, hb]
  rfl

theorem reads_flat {byte : UInt8} {h : Header} {v : MessagePack} (hb : Header.ofByte? byte = some h)
    (hflat : h.isNested = false) (hv : Reads (readFlat h) bs v) : Reads (readWithin room) (byte :: bs) v := by
  cases room with
  | zero =>
      refine (reads_header hb).bind ?_
      rw [hflat]
      exact hv
  | succ room =>
      refine (reads_header hb).bind ?_
      rw [hflat]
      exact hv

/-- A number is read back at every width, also where no more nesting is left. -/
theorem reads_writeNat (room : Nat) (h : n < UInt64.size) : Reads (readWithin room) (writeNat n) (.unsigned n) := by
  -- the sized forms differ in their header and width only
  have hsized : ∀ (byte : UInt8) (width : Nat), Header.ofByte? byte = some (.unsigned width) →
      n < Bytes.bound width → Reads (readWithin room) (byte :: bigEndian width n) (.unsigned n) := by
    intro byte width hb hn
    have hnat := (reads_fixed width n).map MessagePack.unsigned
    rw [Nat.mod_eq_of_lt hn] at hnat
    exact reads_flat hb rfl hnat
  unfold writeNat
  split
  · rename_i hsmall
    have hn : (UInt8.ofNat n).toNat = n := by
      rw [UInt8.toNat_ofNat']
      omega
    have hb : Header.ofByte? (UInt8.ofNat n) = some (.value (.unsigned n)) := by
      unfold Header.ofByte?
      simp only [hn, hsmall, ↓reduceIte]
    exact reads_flat hb rfl (.pure _)
  split
  · exact hsized 0xcc 1 rfl ‹_›
  split
  · exact hsized 0xcd 2 rfl ‹_›
  split
  · exact hsized 0xce 4 rfl ‹_›
  · exact hsized 0xcf 8 rfl h

theorem writeNat_ne_nil (n : Nat) : writeNat n ≠ [] := by
  unfold writeNat
  split
  · exact List.cons_ne_nil _ _
  split
  · exact List.cons_ne_nil _ _
  split
  · exact List.cons_ne_nil _ _
  split
  · exact List.cons_ne_nil _ _
  · exact List.cons_ne_nil _ _

/-! ## Arrays -/

/-- The number of items that an array header announces. -/
def readCount : Header → Reader Nat
  | .array n => pure n
  | .sizedArray width => readNat width
  | _ => failure

def readArrayHeader : Reader Nat := do readCount (← readHeader)

/-- Only the last four bytes of a number of items are written. -/
theorem reads_arrayHeader (n : Nat) : Reads readArrayHeader (writeArrayHeader n) (n % UInt32.size) := by
  unfold writeArrayHeader
  split
  · rename_i hsmall
    have hn : (UInt8.ofNat (0x90 + n)).toNat = 0x90 + n := by
      rw [UInt8.toNat_ofNat']
      omega
    have hb : Header.ofByte? (UInt8.ofNat (0x90 + n)) = some (.array n) := by
      unfold Header.ofByte?
      simp only [hn]
      rw [if_neg (by omega), if_neg (by omega), if_pos (by omega), Nat.add_sub_cancel_left]
    rw [Nat.mod_eq_of_lt (Nat.lt_trans hsmall (by decide))]
    exact (reads_header hb).bind (.pure n)
  split
  · rename_i hn
    have hcount := reads_fixed 2 n
    rw [Nat.mod_eq_of_lt (show n < Bytes.bound 2 from hn)] at hcount
    rw [Nat.mod_eq_of_lt (Nat.lt_trans hn (by decide))]
    have hb : Header.ofByte? 0xdc = some (.sizedArray 2) := rfl
    exact (reads_header hb).bind hcount
  · have hb : Header.ofByte? 0xdd = some (.sizedArray 4) := rfl
    exact (reads_header hb).bind (reads_fixed 4 n)

theorem readWithin_of_readArrayHeader {rest : List UInt8} (h : readArrayHeader bs = some (n, rest)) :
    readWithin (room + 1) bs = (MessagePack.array <$> readMany (readWithin room) n) rest := by
  cases bs with
  | nil => cases h
  | cons byte bs =>
      change (Option.map (·, bs) (Header.ofByte? byte)).bind (fun p => readCount p.1 p.2) = _ at h
      change (Option.map (·, bs) (Header.ofByte? byte)).bind (fun p =>
        (if p.1.isNested then readNested (readWithin room) p.1 else readFlat p.1) p.2) = _
      -- both look at one header, and of all headers only those of arrays give a count
      cases hb : Header.ofByte? byte with
      | none =>
          rw [hb] at h
          cases h
      | some header =>
          rw [hb] at h
          cases header with
          | array k =>
              cases h
              rfl
          | sizedArray width =>
              change readNat width bs = some (n, rest) at h
              change (readNat width bs).bind _ = _
              rw [h]
              rfl
          | _ => cases h

theorem reads_many {read : Reader β} {write : α → List UInt8} {value : α → β} : ∀ {xs : List α},
    (∀ x ∈ xs, Reads read (write x) (value x)) → Reads (readMany read xs.length) (xs.flatMap write) (xs.map value)
  | [], _ => .pure []
  | x :: xs, h => by
      rw [List.forall_mem_cons] at h
      rw [List.flatMap_cons, ← List.append_nil (xs.flatMap write)]
      exact h.1.bind ((reads_many h.2).bind (.pure _))

theorem reads_array {write : α → List UInt8} {value : α → MessagePack} {xs : List α}
    (hxs : ∀ x ∈ xs, Reads (readWithin room) (write x) (value x)) (hlen : xs.length < UInt32.size) :
    Reads (readWithin (room + 1)) (writeArrayHeader xs.length ++ xs.flatMap write) (.array (xs.map value)) := by
  intro rest
  have hheader := reads_arrayHeader xs.length (xs.flatMap write ++ rest)
  rw [Nat.mod_eq_of_lt hlen] at hheader
  rw [List.append_assoc, readWithin_of_readArrayHeader hheader]
  exact (reads_many hxs).map MessagePack.array rest

theorem reads_writeNats (room : Nat) {ns : List Nat} (hns : ∀ k ∈ ns, k < UInt64.size)
    (hlen : ns.length < UInt32.size) : Reads (readWithin (room + 1)) (writeNats ns) (.array (ns.map .unsigned)) :=
  reads_array (fun k hk => reads_writeNat room (hns k hk)) hlen

/-- No array of fewer than `2 ^ 32` numbers is written as the beginning of another. -/
theorem writeNats_cancel {ns ms : List Nat} {rest rest' : List UInt8} (hns : ∀ k ∈ ns, k < UInt64.size)
    (hms : ∀ k ∈ ms, k < UInt64.size) (hlen : ns.length < UInt32.size) (hlen' : ms.length < UInt32.size)
    (h : writeNats ns ++ rest = writeNats ms ++ rest') : ns = ms ∧ rest = rest' := by
  obtain ⟨hvalue, hrest⟩ := (reads_writeNats 0 hns hlen).cancel (reads_writeNats 0 hms hlen') h
  injection hvalue with hitems
  exact ⟨(List.map_inj_right fun _ _ => unsigned.inj).mp hitems, hrest⟩

theorem flatMap_writeNat_injective : ∀ {ns ms : List Nat}, (∀ k ∈ ns, k < UInt64.size) →
    (∀ k ∈ ms, k < UInt64.size) → ns.flatMap writeNat = ms.flatMap writeNat → ns = ms
  | [], [], _, _, _ => rfl
  | [], m :: ms, _, _, h => by
      rw [List.flatMap_cons] at h
      exact absurd (List.append_eq_nil_iff.mp h.symm).1 (writeNat_ne_nil m)
  | n :: ns, [], _, _, h => by
      rw [List.flatMap_cons] at h
      exact absurd (List.append_eq_nil_iff.mp h).1 (writeNat_ne_nil n)
  | n :: ns, m :: ms, hn, hm, h => by
      rw [List.forall_mem_cons] at hn hm
      rw [List.flatMap_cons, List.flatMap_cons] at h
      obtain ⟨hhead, htail⟩ := (reads_writeNat 0 hn.1).cancel (reads_writeNat 0 hm.1) h
      cases hhead
      rw [flatMap_writeNat_injective hn.2 hm.2 htail]

/-- Two arrays of any lengths are written differently. -/
theorem writeNats_injective {ns ms : List Nat} (hns : ∀ k ∈ ns, k < UInt64.size) (hms : ∀ k ∈ ms, k < UInt64.size)
    (h : writeNats ns = writeNats ms) : ns = ms :=
  flatMap_writeNat_injective hns hms ((reads_arrayHeader ns.length).cancel (reads_arrayHeader ms.length) h).2

/-- Of arrays in a row, only the last may be too long to be read back. -/
theorem flatMap_writeNats_injective : ∀ {cs cs' : List (List Nat)} {ns ms : List Nat}, cs.length = cs'.length →
    (∀ c ∈ cs ++ [ns], ∀ k ∈ c, k < UInt64.size) → (∀ c ∈ cs' ++ [ms], ∀ k ∈ c, k < UInt64.size) →
    (∀ c ∈ cs, c.length < UInt32.size) → (∀ c ∈ cs', c.length < UInt32.size) →
    (cs ++ [ns]).flatMap writeNats = (cs' ++ [ms]).flatMap writeNats → cs ++ [ns] = cs' ++ [ms]
  | [], [], ns, ms, _, hns, hms, _, _, h => by
      rw [List.nil_append, List.nil_append, List.flatMap_singleton, List.flatMap_singleton] at h
      rw [writeNats_injective (hns ns (by simp)) (hms ms (by simp)) h]
  | c :: cs, c' :: cs', ns, ms, hlen, hcs, hcs', hshort, hshort', h => by
      rw [List.cons_append, List.forall_mem_cons] at hcs hcs'
      rw [List.forall_mem_cons] at hshort hshort'
      rw [List.cons_append, List.cons_append, List.flatMap_cons, List.flatMap_cons] at h
      obtain ⟨rfl, hrest⟩ := writeNats_cancel hcs.1 hcs'.1 hshort.1 hshort'.1 h
      rw [List.cons_append, List.cons_append,
        flatMap_writeNats_injective (Nat.succ.inj hlen) hcs.2 hcs'.2 hshort.2 hshort'.2 hrest]

end MessagePack

end BehaviorTree
