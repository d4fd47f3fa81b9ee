import BehaviorTree.Proofs.Library.Leaves
import BehaviorTree.Proofs.Library.Timer
import BehaviorTree.Proofs.Run.Agree

/-!
# Instances that differ in dead data

The data of a node matters while the node is running, and from its activation on while its tick is in
progress. Worlds that agree on the data that matters are twins. Each access of a node in progress to its own
data treats twins alike and leaves twins behind.
-/

namespace BehaviorTree

open Library

variable {b : Blob} {m : Machine} {i : Nat}

theorem Cell.eq_of {c c' : Cell} (hs : c.state = c'.state) (hb : c.bytes = c'.bytes) : c = c' := by
  cases c
  cases c'
  cases hs
  cases hb
  rfl

namespace Instance

variable {s s' t t' : Instance b} {L : Nat → Prop}

/-- The same results and counters, and the same data of the nodes in `L`. -/
structure AgreeOn (L : Nat → Prop) (s s' : Instance b) : Prop where
  state : ∀ i, (s'.cell i).state = (s.cell i).state
  bytes : ∀ i, L i → (s'.cell i).bytes = (s.cell i).bytes
  tick : s'.tick = s.tick
  depth : s'.depth = s.depth

namespace AgreeOn

theorem cell (h : AgreeOn L s s') (hi : L i) : s'.cell i = s.cell i :=
  Cell.eq_of (h.state i) (h.bytes i hi)

theorem state_eq (h : AgreeOn L s s') (i : Nat) : s'.state i = s.state i := by
  rcases Nat.lt_or_ge i b.size with hi | hi
  · rw [Instance.state_eq s' hi, Instance.state_eq s hi, h.state i]
  · rw [Instance.state, Instance.state, Vector.getElem?_eq_none hi, Vector.getElem?_eq_none hi]

theorem mono {K : Nat → Prop} (h : AgreeOn L s s') (hk : ∀ i, K i → L i) : AgreeOn K s s' :=
  ⟨h.state, fun i hi => h.bytes i (hk i hi), h.tick, h.depth⟩

/-- Steps that touch the cells in `T` only and make the same of them. -/
theorem step {T K : Nat → Prop} (h : AgreeOn L s s') (hs : s.Frame T t) (hs' : s'.Frame T t')
    (hstate : ∀ j, T j → (t'.cell j).state = (t.cell j).state)
    (hbytes : ∀ j, K j → T j → (t'.cell j).bytes = (t.cell j).bytes)
    (hk : ∀ j, K j → ¬ T j → L j) : AgreeOn K t t' where
  state j := by
    by_cases hj : T j
    · exact hstate j hj
    · rw [hs'.cell j hj, hs.cell j hj, h.state j]
  bytes j hkj := by
    by_cases hj : T j
    · exact hbytes j hkj hj
    · rw [hs'.cell j hj, hs.cell j hj, h.bytes j (hk j hkj hj)]
  tick := by rw [hs'.tick, hs.tick, h.tick]
  depth := by rw [hs'.depth, hs.depth, h.depth]

end AgreeOn

end Instance

/-! ## Timers that read their own data only -/

/-- The handles at the head of the data of a timer. -/
def Library.delayHandles (bs : List UInt8) : List Variable :=
  if h : 0 + PlainData.delayData.type.size ≤ bs.length then
    let d := PlainData.delayData.decode ⟨window bs 0 PlainData.delayData.type.size, length_window h⟩
    [d.duration, d.delta]
  else []

/-- If node `i` is a timer, then with the data `bs` none of its handles is for data of another node. -/
def Machine.SelfContained (m : Machine) (b : Blob) (i : Nat) (bs : List UInt8) : Prop :=
  m.behaviorAt b i = .ok delay →
    ∀ v ∈ delayHandles bs, m.registries.strategy PlainData.f32.type v.id ≠ .ok .node

theorem Machine.SelfContained.of_ne (h : m.behaviorAt b i ≠ .ok delay) (bs : List UInt8) :
    m.SelfContained b i bs := fun hd => absurd hd h

namespace Library

theorem delayHandles_eq {bs : List UInt8} {head : PlainData.delayData.type.Value}
    (h : window bs 0 PlainData.delayData.type.size = head.1) : delayHandles bs =
      [(PlainData.delayData.decode head).duration, (PlainData.delayData.decode head).delta] := by
  have hlen : 0 + PlainData.delayData.type.size ≤ bs.length := by
    have hl := congrArg List.length h
    rw [head.2, window, List.drop_zero, List.length_take] at hl
    omega
  have hhead : (⟨window bs 0 PlainData.delayData.type.size, length_window hlen⟩ :
      PlainData.delayData.type.Value) = head := Subtype.ext h
  rw [delayHandles, dif_pos hlen, hhead]

/-- A tick of a timer keeps its handles. -/
theorem delayHandles_elapse {bs : List UInt8} {head : PlainData.delayData.type.Value}
    (h : window bs 0 PlainData.delayData.type.size = head.1) (elapsed : Single) :
    delayHandles (overlay bs 0
      (PlainData.delayData.encode { PlainData.delayData.decode head with elapsed }).1) = delayHandles bs := by
  have hkeep := PlainData.take_encode_delayData head elapsed
  generalize PlainData.delayData.encode { PlainData.delayData.decode head with elapsed } = head' at hkeep ⊢
  have hwin : window (overlay bs 0 head'.1) 0 PlainData.delayData.type.size = head'.1 :=
    window_overlay_self (Nat.zero_le _) head'.2
  obtain ⟨hdur, hdel⟩ := PlainData.delayData_handles hkeep
  rw [delayHandles_eq hwin, delayHandles_eq h, hdur, hdel]

end Library

/-- What a variable says is found in the data of its own node, unless its handle is for another node. -/
theorem Variable.read_congr {rs : Registries} {t : ValueType} {v : Variable} {s s' : Instance b}
    (hi : i < b.size) (hv : rs.strategy t v.id ≠ .ok .node) (hcell : s'.cell i = s.cell i)
    (bb : Blackboard) : v.read rs t i s' bb = v.read rs t i s bb := by
  have hread : ∀ (t : ValueType) (o : Nat), s'.readAt t i o = s.readAt t i o := fun t o => by
    rw [Instance.readAt_eq s' hi, Instance.readAt_eq s hi, hcell]
  unfold Variable.read
  cases hst : rs.strategy t v.id with
  | error e => rfl
  | ok st =>
      rw [Checked.ofExcept_ok, Checked.ok_bind, Checked.ok_bind]
      cases st with
      | constant => simp only [Strategy.read, hread]
      | blackboard => simp only [Strategy.read, Strategy.payload, hread]
      | node => exact absurd hst hv
      | component c field mode => rfl

/-! ## Twins -/

/-- The worlds differ at most in the data of nodes that are neither in `S` nor running, and the timers among
those have handles for their own data only. -/
structure Twins (m : Machine) (S : Nat → Prop) (w v : World b) : Prop where
  inst : w.inst.AgreeOn (fun i => S i ∨ w.inst.Running i) v.inst
  board : v.board = w.board
  timers : ∀ i, S i ∨ w.inst.Running i → m.SelfContained b i (w.inst.cell i).bytes

namespace Twins

variable {S S' : Nat → Prop} {w v w' v' : World b}

theorem cell (h : Twins m S w v) (hi : S i) : v.inst.cell i = w.inst.cell i := h.inst.cell (Or.inl hi)

theorem mono (h : Twins m S w v) (hs : ∀ i, S' i → S i) : Twins m S' w v where
  inst := h.inst.mono fun i hi => hi.imp_left (hs i)
  board := h.board
  timers i hi := h.timers i (hi.imp_left (hs i))

/-- Steps that touch the cells in `T` only and make the same of them. -/
theorem step {T : Nat → Prop} (h : Twins m S w v) (hw : w.inst.Frame T w'.inst) (hv : v.inst.Frame T v'.inst)
    (hcell : ∀ j, T j → (v'.inst.cell j).state = (w'.inst.cell j).state ∧
      (S' j ∨ w'.inst.Running j → (v'.inst.cell j).bytes = (w'.inst.cell j).bytes ∧
        m.SelfContained b j (w'.inst.cell j).bytes))
    (hs : ∀ j, S' j → ¬ T j → S j) (hboard : v'.board = w'.board) : Twins m S' w' v' := by
  have hlive : ∀ j, S' j ∨ w'.inst.Running j → ¬ T j → S j ∨ w.inst.Running j := fun j hj ht => by
    rw [Instance.Running, hw.cell j ht] at hj
    exact hj.imp_left fun h => hs j h ht
  refine ⟨h.inst.step hw hv (fun j hj => (hcell j hj).1) (fun j hl hj => ((hcell j hj).2 hl).1) hlive,
    hboard, fun j hj => ?_⟩
  by_cases ht : T j
  · exact ((hcell j ht).2 hj).2
  · rw [hw.cell j ht]
    exact h.timers j (hlive j hj ht)

/-- Both sides change the cell of node `i` and make the same of it. -/
theorem touch (h : Twins m S w v) (hw : w.inst.Frame (· = i) w'.inst) (hv : v.inst.Frame (· = i) v'.inst)
    (hcell : v'.inst.cell i = w'.inst.cell i) (hself : m.SelfContained b i (w'.inst.cell i).bytes)
    (hboard : v'.board = w'.board) : Twins m (fun j => S j ∨ j = i) w' v' :=
  h.step hw hv (fun j hj => by subst hj; exact ⟨by rw [hcell], fun _ => ⟨by rw [hcell], hself⟩⟩)
    (fun _ hj hne => hj.resolve_right hne) hboard

theorem clears {lo hi : Nat} (h : Twins m S w v) (hw : w.inst.Clears lo hi w'.inst)
    (hv : v.inst.Clears lo hi v'.inst) (hwb : w'.board = w.board) (hvb : v'.board = v.board) :
    Twins m S w' v' := by
  refine h.step hw.frame hv.frame (fun j hj => ?_) (fun _ hj _ => hj) (by rw [hwb, hvb, h.board])
  rw [hw.inside j hj.1 hj.2, hv.inside j hj.1 hj.2]
  refine ⟨rfl, fun hl => ?_⟩
  have hsj : S j := hl.resolve_right (hw.not_running hj)
  exact ⟨h.inst.bytes j (Or.inl hsj), h.timers j (Or.inl hsj)⟩

theorem renews {lo hi : Nat} (h : Twins m S w v) (hdef : ∀ i < b.size, m.SelfContained b i (b.defaults i))
    (hhi : hi ≤ b.size) (hw : w.inst.Renews lo hi w'.inst) (hv : v.inst.Renews lo hi v'.inst)
    (hwb : w'.board = w.board) (hvb : v'.board = v.board) :
    Twins m (fun j => S j ∨ Within lo hi j) w' v' := by
  refine h.step hw.frame hv.frame (fun j hj => ?_) (fun _ hj hne => hj.resolve_right hne)
    (by rw [hwb, hvb, h.board])
  rw [hw.inside j hj.1 hj.2, hv.inside j hj.1 hj.2]
  exact ⟨rfl, fun _ => ⟨rfl, hdef j (Nat.lt_of_lt_of_le hj.2 hhi)⟩⟩

end Twins

end BehaviorTree
