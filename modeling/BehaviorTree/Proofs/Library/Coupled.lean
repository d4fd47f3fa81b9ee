import Mathlib.Data.List.Forall2
import BehaviorTree.Proofs.Layout.Outline
import BehaviorTree.Proofs.Library.DeadData
import BehaviorTree.Proofs.Machine.Coupling

/-!
# Couplings of the library

The nodes of the library uphold a coupling that allows for their writes. A timer writes no more than the
time elapsed, so its handles stay as they are in the default data, and so do the bytes between the spans
of the nodes.
-/

namespace BehaviorTree

open Library Run

variable {b : Blob} {m : Machine} {i : Nat}

/-! ## Bytes that no run changes -/

/-- Byte `k` of the memory may change: it belongs to a node and is none of the bytes that a timer keeps. -/
def Machine.Free (m : Machine) (b : Blob) (k : Nat) : Prop :=
  ∃ i < b.size, b.InSpan i k ∧ (m.behaviorAt b i = .ok delay → b.offset i + 16 ≤ k ∧ k < b.offset i + 20)

/-- The bytes that may not change are as in the default data. -/
def Machine.Intact (m : Machine) (d : Buffer b.regionSize) : Prop :=
  ∀ k : Nat, ¬ m.Free b k → d[k]? = (Instance.defaults b)[k]?

theorem Machine.free_of_ne (hi : i < b.size) (hbh : m.behaviorAt b i ≠ .ok delay) {k : Nat} (hk : b.InSpan i k) :
    m.Free b k := ⟨i, hi, hk, fun h => absurd h hbh⟩

/-- The failures that a check of a tree before its first tick rules out: types and variables that the
machine does not know, and timers without room for their head. -/
inductive Machine.Foreseen (m : Machine) (b : Blob) : Fault → Prop
  | nodeType (id : TypeId) (i : Nat) : Foreseen m b (.error (.unknownNodeType id i))
  | variable (id : UInt32) (type : String) : Foreseen m b (.error (.unknownVariable id type))
  | variableType (type : String) : Foreseen m b (.error (.unregisteredVariableType type))
  | unallocated {i : Nat} : m.behaviorAt b i = .ok delay → Foreseen m b (.error (.unallocatedData i))
  | short {i size : Nat} : m.behaviorAt b i = .ok delay →
      Foreseen m b (.error (.dataOutOfBounds i 0 PlainData.delayData.type.size size))

theorem Machine.Foreseen.length_eq {o n size : Nat} (h : m.Foreseen b (.error (.dataOutOfBounds i o n size))) :
    n = PlainData.delayData.type.size := by
  cases h
  rfl

/-! ## Accesses to data -/

namespace Instance

variable {P : Fault → Prop} {s : Instance b} {t : ValueType} {o : Nat}

theorem readAt_failsBy (hi : i < b.size) (hnone : P (.error (.unallocatedData i)))
    (hout : ∀ n, P (.error (.dataOutOfBounds i o t.size n))) : (s.readAt t i o).FailsBy P := by
  rw [s.readAt_eq hi, Cell.read]
  split
  · exact .error hnone
  split
  · exact .ok _
  · exact .error (hout _)

theorem writeAt_failsBy (hi : i < b.size) (ht : t.align ∣ dataAlign) {v : t.Value} {a : Address}
    (hnone : P (.error (.unallocatedData i))) (hout : ∀ n, P (.error (.dataOutOfBounds i o t.size n)))
    (halign : P (.error (.misaligned i o t.name))) : (s.writeAt i o v a).FailsBy P := by
  have h := s.writeAt_eq hi ht o v a
  unfold Cell.write at h
  split at h
  · obtain ⟨s', hs', -⟩ := h
    rw [hs']
    exact .ok _
  · rename_i e he
    rw [h]
    refine .error ?_
    split at he
    · cases he
      exact hnone
    split at he
    · cases he
      exact hout _
    split at he
    · cases he
      exact halign
    · cases he

end Instance

/-! ## Nodes -/

namespace Coupling

variable {C : Coupling b} {depth : Nat}

/-- The coupling allows for what the library does. -/
structure Suits (C : Coupling b) (m : Machine) : Prop where
  data : ∀ d d', C.data d → (∀ k : Nat, ¬ m.Free b k → d'[k]? = d[k]? ∨ d'[k]? = (Instance.defaults b)[k]?) →
    C.data d'
  fault : ∀ e, ¬ m.Foreseen b e → C.fault e
  head : ∀ i, m.behaviorAt b i = .ok delay →
    PlainData.delayData.type.size ≤ b.extent i ∨ ∀ e, C.fault e
  /-- Its variables tell a timer the same on both sides. -/
  handles : ∀ i, m.behaviorAt b i = .ok delay → ∀ depth w v, C.Holds depth w v →
    ∀ u ∈ delayHandles (w.inst.cell i).bytes,
      u.read m.registries PlainData.f32.type i v.inst v.board =
          u.read m.registries PlainData.f32.type i w.inst w.board ∧
        (u.read m.registries PlainData.f32.type i w.inst w.board).FailsBy C.fault

namespace Suits

variable (h : C.Suits m)

include h

theorem unallocated (hbh : m.behaviorAt b i ≠ .ok delay) : C.fault (.error (.unallocatedData i)) :=
  h.fault _ (by rintro ⟨⟩; exact hbh ‹_›)

theorem outside (hbh : m.behaviorAt b i ≠ .ok delay) (o n size : Nat) :
    C.fault (.error (.dataOutOfBounds i o n size)) :=
  h.fault _ (by rintro ⟨⟩; exact hbh ‹_›)

theorem readHead {α : Type} (hi : i < b.size) (hbh : m.behaviorAt b i ≠ .ok delay) (p : PlainData α) :
    Relates (C.Holds depth) C.fault (Run.readHead p i) (Run.readHead p i) :=
  relates_read (fun _ _ _ => rfl)
    (fun _ _ => Instance.readAt_failsBy hi (h.unallocated hbh) (h.outside hbh _ _)) fun _ => .pure _

theorem readStatus (hi : i < b.size) (hbh : m.behaviorAt b i ≠ .ok delay) (k : Nat) :
    Relates (C.Holds depth) C.fault (Run.readStatus i k) (Run.readStatus i k) := by
  refine relates_read (fun _ _ _ => rfl)
    (fun _ _ => Instance.readAt_failsBy hi (h.unallocated hbh) (h.outside hbh _ _)) fun _ => .lift ?_
  refine .ofExcept fun e he => h.fault _ ?_
  unfold Status.ofBits at he
  split at he
  · cases he
  · cases he
    rintro ⟨⟩

theorem writeAt (hi : i < b.size) (hbh : m.behaviorAt b i ≠ .ok delay) {t : ValueType}
    (ht : t.align ∣ dataAlign) (o : Nat) (v : t.Value) (a : Address) : Relates (C.Holds depth) C.fault
      (update (·.writeAt i o v a)) (update (·.writeAt i o v a)) := by
  refine relates_update (.writeAt i o v a) (fun s _ => ?_) fun s s' hs hd => h.data _ _ hd fun k hk => .inl ?_
  · exact Instance.writeAt_failsBy hi ht (h.unallocated hbh) (h.outside hbh _ _)
      (h.fault _ (by rintro ⟨⟩))
  · obtain ⟨hle, hdata⟩ := Instance.writeAt_data hi hs
    rw [hdata, if_neg]
    exact fun hin => hk (m.free_of_ne hi hbh ⟨by omega, by omega⟩)

theorem fill (hi : i < b.size) (hbh : m.behaviorAt b i ≠ .ok delay) (byte : UInt8) :
    Relates (C.Holds depth) C.fault (update (·.fill i byte)) (update (·.fill i byte)) := by
  refine relates_update (.fill i byte) (fun s _ => ?_) fun s s' hs hd => h.data _ _ hd fun k hk => .inl ?_
  · obtain ⟨s', hs', -⟩ := s.fill_sets hi byte
    exact hs' ▸ .ok _
  · exact Instance.fill_data hi hs k fun hin => hk (m.free_of_ne hi hbh hin)

theorem abortOne (c : Nat) : Relates (C.Holds depth) C.fault (Library.abortOne c) (Library.abortOne c) := by
  refine relates_read (fun _ _ _ => rfl) (fun s _ => ?_) fun st => ?_
  · unfold Instance.state
    cases s.states[c]? with
    | none => exact .error (h.fault _ (by rintro ⟨⟩))
    | some st => exact .ok _
  · split
    · exact relates_abort fun _ => h.fault _ (by rintro ⟨⟩)
    · exact .pure ()

theorem composite (hi : i < b.size) (hbh : m.behaviorAt b i ≠ .ok delay) {bh : Behavior}
    (hc : bh ∈ composites) (rs rs' : Registries) {cb cb' : Callbacks b}
    (htick : ∀ c, Relates (C.Holds depth) C.fault (cb.tick c) (cb'.tick c)) :
    Relates (C.Holds depth) C.fault (bh.tick rs cb i) (bh.tick rs' cb' i) := by
  refine StepsRelate.composite ⟨htick, h.abortOne, .lift (Blob.children_eq hi ▸ .ok _), h.readStatus hi hbh,
    fun k st => ?_, h.readHead hi hbh _, fun d => ?_, ?_, ?_⟩ hi hc rs rs'
  · exact h.writeAt hi hbh ⟨dataAlign, (Nat.one_mul _).symm⟩ k _ _
  · exact h.writeAt hi hbh ⟨2, rfl⟩ 0 _ _
  · exact h.fault _ (by rintro ⟨⟩)
  · exact h.fault _ (by rintro ⟨⟩)

omit h in
theorem readSingle_agrees {w v : World b} {rs : Registries} {u : Variable}
    (hsame : u.read rs PlainData.f32.type i v.inst v.board = u.read rs PlainData.f32.type i w.inst w.board)
    (hfails : (u.read rs PlainData.f32.type i w.inst w.board).FailsBy C.fault) :
    (readSingle rs u i).Agrees w (readSingle rs u i) v fun r w' v' =>
      w' = w ∧ v' = v ∧ Checked.FailsBy C.fault r := by
  simp only [Agrees, readSingle, yields_bind, yields_inst, yields_board, yields_lift, yields_pure, hsame]
  cases hread : u.read rs PlainData.f32.type i w.inst w.board with
  | error e =>
      exact ⟨rfl, trivial, trivial, .error (hfails e hread)⟩
  | ok x =>
      exact ⟨rfl, trivial, trivial, .ok _⟩

omit h in
/-- The bytes of a timer but for the time elapsed. -/
theorem elapse_data (hi : i < b.size) {s s' : Instance b} {head : PlainData.delayData.type.Value}
    (hhead : window (s.cell i).bytes 0 PlainData.delayData.type.size = head.1) {elapsed : Single} {a : Address}
    (hs : s.writeAt i 0 (PlainData.delayData.encode { PlainData.delayData.decode head with elapsed }) a = .ok s')
    {k : Nat} (hk : ¬ m.Free b k) : s'.data[k]? = s.data[k]? := by
  obtain ⟨hle, hdata⟩ := Instance.writeAt_data hi hs
  rw [hdata]
  change 0 + 20 ≤ b.extent i at hle
  change (if b.offset i ≤ k ∧ k < b.offset i + 20 then _ else _) = _
  split
  · rename_i hin
    have hlt : k - b.offset i < 16 := Nat.lt_of_not_le fun hge =>
      hk ⟨i, hi, ⟨hin.1, by omega⟩, fun _ => ⟨by omega, hin.2⟩⟩
    have hkeep := congrArg (·[k - b.offset i]?) (PlainData.take_encode_delayData head elapsed)
    simp only [List.getElem?_take, hlt, ↓reduceIte] at hkeep
    refine Eq.trans hkeep ?_
    have hsize : k - b.offset i < PlainData.delayData.type.size := Nat.lt_trans hlt (by decide)
    rw [← hhead, getElem?_window, if_pos hsize, Nat.zero_add, Instance.cell, getElem?_window, if_pos (by omega),
      Vector.getElem?_toList]
    congr 1
    omega
  · rfl

/-- The end of a tick of a timer, which has read its head. -/
theorem elapse (hi : i < b.size) {w v : World b} (hw : C.Holds depth w v) {head : PlainData.delayData.type.Value}
    (hread : (w.inst.cell i).read PlainData.delayData.type i 0 = .ok head) (elapsed : Single) (st : Status) :
    Agrees (do writeHead .delayData i { PlainData.delayData.decode head with elapsed }; return st) w
      (do writeHead .delayData i { PlainData.delayData.decode head with elapsed }; return st) v
      fun r w' v' => C.Holds depth w' v' ∧ Checked.FailsBy C.fault r := by
  have hupdate := hw.update
    (.writeAt i 0 (PlainData.delayData.encode { PlainData.delayData.decode head with elapsed }) default) ?_
    fun s hs => h.data _ _ hw.data fun k hk => .inl (elapse_data hi (Cell.read_window hread) hs hk)
  · exact hupdate.bind (fun _ _ _ h' => agrees_pure.mpr ⟨h'.1, .ok _⟩) fun e _ _ h' => ⟨h'.1, .error (h'.2 e rfl)⟩
  · have hwrite := w.inst.writeAt_eq hi (t := PlainData.delayData.type) ⟨2, rfl⟩ 0
      (PlainData.delayData.encode { PlainData.delayData.decode head with elapsed }) default
    rw [Cell.write_eq_ok (by decide) (Cell.length_of_read hread) (Nat.zero_mod _)] at hwrite
    obtain ⟨s', hs', -⟩ := hwrite
    exact hs' ▸ .ok _

theorem delay_tick (hi : i < b.size) (hbh : m.behaviorAt b i = .ok delay) (cb cb' : Callbacks b) :
    Relates (C.Holds depth) C.fault (delay.tick m.registries cb i) (delay.tick m.registries cb' i) := by
  intro w v hw
  have hcell : v.inst.cell i = w.inst.cell i := by
    rw [hw.inst]
    rfl
  simp only [delay]
  refine Agrees.bind (P := fun r w' v' => w' = w ∧ v' = v ∧
    r = Checked.ofExcept (PlainData.delayData.decode <$> (w.inst.cell i).read PlainData.delayData.type i 0))
    ?_ ?_ ?_
  · simp only [Agrees, readHead_yields hi, hcell, and_self]
  · rintro d w' v' ⟨rfl, rfl, hd⟩
    cases hread : (w'.inst.cell i).read PlainData.delayData.type i 0 with
    | error e =>
        rw [hread] at hd
        cases hd
    | ok head =>
        rw [hread] at hd
        cases hd
        have hvars := h.handles i hbh depth w' v' hw
        rw [delayHandles_eq (Cell.read_window hread), List.forall_mem_cons, List.forall_mem_singleton] at hvars
        have hfails : ∀ (e : Fault) (w₁ v₁ : World b), w₁ = w' ∧ v₁ = v' ∧
            Checked.FailsBy C.fault (Except.error e : Checked Single) →
            C.Holds depth w₁ v₁ ∧ Checked.FailsBy C.fault (Except.error e : Checked Status) := by
          rintro e w₁ v₁ ⟨rfl, rfl, he⟩
          exact ⟨hw, .error (he e rfl)⟩
        refine (readSingle_agrees hvars.1.1 hvars.1.2).bind ?_ hfails
        rintro duration w₁ v₁ ⟨rfl, rfl, -⟩
        refine (readSingle_agrees hvars.2.1 hvars.2.2).bind ?_ hfails
        rintro delta w₁ v₁ ⟨rfl, rfl, -⟩
        exact h.elapse hi hw hread _ _
  · rintro e w' v' ⟨rfl, rfl, he⟩
    refine ⟨hw, .error ?_⟩
    rcases h.head i hbh with hle | hall
    · rw [Cell.read_eq_ok (by decide) (by rw [w'.inst.length_bytes_cell hi, Nat.zero_add]; exact hle)] at he
      cases he
    · exact hall e

theorem tickFunction {x : TypeId × Behavior} (hx : x ∈ Library.behaviors) (hbh : m.behaviorAt b i = .ok x.2)
    {cb cb' : Callbacks b} (htick : ∀ c, Relates (C.Holds depth) C.fault (cb.tick c) (cb'.tick c)) :
    Relates (C.Holds depth) C.fault (x.2.tick m.registries cb i) (x.2.tick m.registries cb' i) := by
  have hi := Machine.lt_of_behaviorAt hbh
  by_cases hd : x.2 = delay
  · rw [hd] at hbh ⊢
    exact h.delay_tick hi hbh cb cb'
  have hne : m.behaviorAt b i ≠ .ok delay := fun h => hd (Except.ok.inj (hbh.symm.trans h))
  by_cases hc : x.2 ∈ composites
  · exact h.composite hi hne hc _ _ htick
  rcases leaf_cases hx hc with rfl | rfl
  · exact h.readStatus hi hne 0
  · exact absurd rfl hd

theorem resetFunction {x : TypeId × Behavior} (hx : x ∈ Library.behaviors) (hbh : m.behaviorAt b i = .ok x.2) :
    Relates (C.Holds depth) C.fault (x.2.reset i) (x.2.reset i) := by
  by_cases hp : x.2 = parallel
  · rw [hp] at hbh ⊢
    refine h.fill (Machine.lt_of_behaviorAt hbh) (fun hd => ?_) _
    have hname := congrArg Behavior.name (Except.ok.inj (hbh.symm.trans hd))
    exact absurd hname (by decide)
  · rw [reset_of_ne hx hp]
    exact .pure ()

/-- Two machines uphold a coupling that suits the library if they have the same nodes and variables, and if
their other nodes and their traces uphold it. -/
theorem upheld (tr : Bool) (hunknown : ∀ i e, m.behaviorAt b i = .error e → C.fault e)
    (hadvance : ∀ n n' bb bb', C.board (n, bb) (n', bb') → C.board (n + 1, bb) (n' + 1, bb'))
    (htrace : ∀ depth i ev, Relates (C.Holds depth) C.fault (m.trace i ev)
      (({ m with config := { m.config with trace := tr } } : Machine).trace i ev))
    (hhost : ∀ i bh, m.behaviorAt b i = .ok bh → bh ∉ Library.behaviors.map (·.2) → ∀ depth,
      Relates (C.Holds depth) C.fault (bh.reset i) (bh.reset i) ∧
        ∀ (cb cb' : Callbacks b), (tr = m.config.trace → cb' = cb) →
          (∀ c, Relates (C.Holds depth) C.fault (cb.tick c) (cb'.tick c)) →
          (∀ c, Relates (C.Holds depth) C.fault (cb.reset c) (cb'.reset c)) →
          Relates (C.Holds depth) C.fault (bh.tick m.registries cb i) (bh.tick m.registries cb' i)) :
    C.Upheld m { m with config := { m.config with trace := tr } } where
  limit := rfl
  behaviorAt _ := rfl
  unknown := hunknown
  depthExceeded i := h.fault _ (by rintro ⟨⟩)
  outOfBounds := h.fault _ (by rintro ⟨⟩)
  restore d d' hd hk := h.data d d' hd fun k _ => hk k
  advance := hadvance
  trace := htrace
  reset i bh hbh depth := by
    by_cases hlib : bh ∈ Library.behaviors.map (·.2)
    · obtain ⟨x, hx, rfl⟩ := List.mem_map.mp hlib
      exact h.resetFunction hx hbh
    · exact (hhost i bh hbh hlib depth).1
  tick i bh hbh depth room htick hreset := by
    by_cases hlib : bh ∈ Library.behaviors.map (·.2)
    · obtain ⟨x, hx, rfl⟩ := List.mem_map.mp hlib
      exact h.tickFunction hx hbh htick
    · refine (hhost i bh hbh hlib depth).2 _ _ (fun htr => ?_) htick hreset
      rw [htr]

end Suits

end Coupling

/-! ## Intact memories -/

namespace Machine

variable {d d' : Buffer b.regionSize}

theorem intact_defaults : m.Intact (Instance.defaults b) := fun _ _ => rfl

theorem Intact.sameTimer {s : Instance b} (h : m.Intact s.data) (hbh : m.behaviorAt b i = .ok delay) :
    SameTimer (b.defaults i) (s.cell i).bytes := by
  have hi := lt_of_behaviorAt hbh
  have hspan := Blob.offset_add_extent_le hi
  refine ⟨by rw [s.length_bytes_cell hi, b.length_defaults], fun k hk => ?_⟩
  rw [Instance.cell, getElem?_window, Vector.getElem?_toList]
  split
  · rename_i hlt
    rw [h (b.offset i + k), Instance.getElem?_defaults (by omega), Blob.defaults, List.getElem?_map,
      List.getElem?_range' hlt, Option.map_some, Nat.one_mul]
    rintro ⟨j, hj, hin, hfree⟩
    obtain rfl := hin.unique hj hi ⟨by omega, by omega⟩
    have := hfree hbh
    omega
  · rw [List.getElem?_eq_none (by rw [b.length_defaults]; omega)]

theorem Intact.after (h : m.Intact d)
    (hd : ∀ k : Nat, ¬ m.Free b k → d'[k]? = d[k]? ∨ d'[k]? = (Instance.defaults b)[k]?) : m.Intact d' :=
  fun k hk => (hd k hk).elim (fun he => he.trans (h k hk)) id

end Machine

theorem SameTimer.handles {ds bs : List UInt8} (h : SameTimer ds bs) : delayHandles bs = delayHandles ds := by
  by_cases hlen : 0 + PlainData.delayData.type.size ≤ ds.length
  · have hlen' : 0 + PlainData.delayData.type.size ≤ bs.length := by rw [h.length]; exact hlen
    have hsixteen : (window bs 0 PlainData.delayData.type.size).take 16 =
        (window ds 0 PlainData.delayData.type.size).take 16 := by
      rw [window, window, List.drop_zero, List.drop_zero, List.take_take, List.take_take]
      exact h.window_eq (o := 0) (n := 16) (.inl (Nat.le_refl 16))
    obtain ⟨hduration, hdelta⟩ := PlainData.delayData_handles
      (x := ⟨_, length_window hlen'⟩) (y := ⟨_, length_window hlen⟩) hsixteen
    rw [delayHandles, delayHandles, dif_pos hlen', dif_pos hlen]
    simp only [hduration, hdelta]
  · rw [delayHandles, delayHandles, dif_neg hlen, dif_neg (by rw [h.length]; exact hlen)]

/-! ## Trees of library nodes -/

/-- The types of all nodes come with the library. -/
def Blob.OfLibrary (b : Blob) : Prop := ∀ i type, b.typeOf i = .ok type → type ∈ Library.behaviors.map (·.1)

instance (b : Blob) : Decidable b.OfLibrary :=
  decidable_of_iff (∀ type ∈ b.types.toList, type ∈ Library.behaviors.map (·.1))
    ⟨fun h _ _ htype => h _ (Array.mem_toList_iff.mpr (Array.mem_of_getElem? (Blob.typeOf_eq_ok_iff.mp htype))),
      fun h type htype => by
        obtain ⟨i, hi⟩ := Array.mem_iff_getElem?.mp (Array.mem_toList_iff.mp htype)
        exact h i type (Blob.typeOf_eq_ok_iff.mpr hi)⟩

theorem Blob.OfLibrary.behaviorAt (hb : b.OfLibrary) (hlib : ∀ x ∈ Library.behaviors, m.behavior? x.1 = some x.2)
    {bh : Behavior} (hbh : m.behaviorAt b i = .ok bh) : bh ∈ Library.behaviors.map (·.2) := by
  obtain ⟨type, htype, hsome⟩ := Machine.behaviorAt_eq_ok hbh
  obtain ⟨x, hx, rfl⟩ := List.mem_map.mp (hb i type htype)
  rw [hlib x hx] at hsome
  cases hsome
  exact List.mem_map_of_mem hx

namespace Coupling

/-- Two runs whose counters and blackboards compare by `B`. Any failure is allowed. -/
def ofBoards (m : Machine) (b : Blob) (B : UInt64 × Blackboard → UInt64 × Blackboard → Prop) : Coupling b where
  data := m.Intact
  board := B
  fault _ := True

variable {B : UInt64 × Blackboard → UInt64 × Blackboard → Prop}

/-- Runs of library nodes compare by `B` throughout, if no timer can tell such blackboards apart and events
keep them so. -/
theorem ofBoards_upheld (hlib : ∀ x ∈ Library.behaviors, m.behavior? x.1 = some x.2) (hb : b.OfLibrary)
    (hread : ∀ i, m.behaviorAt b i = .ok delay → ∀ v ∈ delayHandles (b.defaults i), ∀ (s : Instance b) x y, B x y →
      v.read m.registries PlainData.f32.type i s y.2 = v.read m.registries PlainData.f32.type i s x.2)
    (hadvance : ∀ n n' bb bb', B (n, bb) (n', bb') → B (n + 1, bb) (n' + 1, bb')) (tr : Bool)
    (htrace : ∀ depth i ev, Relates ((ofBoards m b B).Holds depth) (fun _ => True) (m.trace i ev)
      (({ m with config := { m.config with trace := tr } } : Machine).trace i ev)) :
    (ofBoards m b B).Upheld m { m with config := { m.config with trace := tr } } := by
  have hsuits : (ofBoards m b B).Suits m := by
    refine ⟨fun _ _ hd hk => hd.after hk, fun _ _ => trivial, fun _ _ => .inr fun _ => trivial, ?_⟩
    intro i hbh depth w v hw u hu
    have hintact : m.Intact w.inst.data := hw.data
    rw [(hintact.sameTimer hbh).handles] at hu
    refine ⟨?_, fun _ _ => trivial⟩
    have hsame : u.read m.registries PlainData.f32.type i v.inst v.board =
        u.read m.registries PlainData.f32.type i w.inst v.board := by
      rw [hw.inst]
      rfl
    rw [hsame]
    exact hread i hbh u hu w.inst _ _ hw.board
  exact hsuits.upheld tr (fun _ _ _ => trivial) hadvance htrace
    fun i bh hbh hhost _ => absurd (hb.behaviorAt hlib hbh) hhost

end Coupling

/-! ## Runs -/

namespace Coupling

variable {C : Coupling b} {m' : Machine} {t t' : Tree b}

/-- Whatever the blackboards before, these may come next. -/
def Admits (C : Coupling b) (bb bb' : Blackboard) : Prop :=
  ∀ n n' old old', C.board (n, old) (n', old') → C.board (n, bb) (n', bb')

theorem Pairs.with_boards {bb bb' old old' : Blackboard} (h : C.Pairs t t' old old') (hbb : C.Admits bb bb') :
    C.Pairs t t' bb bb' := ⟨⟨h.holds.inst, h.holds.depth, h.holds.data, hbb _ _ _ _ h.holds.board⟩, h.last⟩

/-- Two runs of the same calls, each on blackboards of its own, get the same answers and blackboards that
compare. -/
theorem Upheld.answers (h : C.Upheld m m') : ∀ (acts : List (Act × Blackboard × Blackboard)) {t t' : Tree b},
    (∃ bb bb', C.Pairs t t' bb bb') → (∀ x ∈ acts, C.Admits x.2.1 x.2.2) →
    List.Forall₂ (fun x y => y.1 = x.1 ∧ ∃ n n', C.board (n, x.2) (n', y.2))
        (t.answers m (acts.map fun x => (x.1, x.2.1))) (t'.answers m' (acts.map fun x => (x.1, x.2.2))) ∧
      (∀ x ∈ t.answers m (acts.map fun x => (x.1, x.2.1)), Checked.FailsBy C.fault x.1) ∧
      ∃ bb bb', C.Pairs (t.after m (acts.map fun x => (x.1, x.2.1)))
        (t'.after m' (acts.map fun x => (x.1, x.2.2))) bb bb'
  | [], _, _, ht, _ => ⟨.nil, fun _ hx => absurd hx List.not_mem_nil, ht⟩
  | (a, bb, bb') :: rest, t, t', ⟨old, old', ht⟩, hacts => by
      rw [List.forall_mem_cons] at hacts
      have hcall := h.call (ht.with_boards hacts.1) a
      obtain ⟨hanswers, hfails, hafter⟩ := answers h rest ⟨_, _, hcall.pairs⟩ hacts.2
      refine ⟨?_, ?_, hafter⟩
      · simp only [List.map_cons, Tree.answers]
        exact .cons ⟨hcall.answer, _, _, hcall.pairs.holds.board⟩ hanswers
      · simp only [List.map_cons, Tree.answers]
        exact List.forall_mem_cons.mpr ⟨hcall.fails, hfails⟩

end Coupling

/-- What holds of a tree of library nodes between two calls. -/
structure Tree.Settled (m : Machine) (t : Tree b) : Prop where
  depth : t.inst.depth = 0
  data : m.Intact t.inst.data

namespace Tree

variable {t : Tree b}

theorem Settled.pairs (ht : t.Settled m) (B : UInt64 × Blackboard → UInt64 × Blackboard → Prop)
    (bb bb' : Blackboard) (hbb : B (t.inst.tick, bb) (t.inst.tick, bb')) :
    (Coupling.ofBoards m b B).Pairs t t bb bb' :=
  ⟨⟨congrArg (t.inst.stamp t.inst.tick) ht.depth, ht.depth, ht.data, hbb⟩, rfl⟩

end Tree

section

variable (hlib : ∀ x ∈ Library.behaviors, m.behavior? x.1 = some x.2) (hb : b.OfLibrary)

include hlib hb

/-- No call depends on anything but its tree and its blackboard, and what events keep of a blackboard, calls
keep. -/
theorem Coupling.keeping_upheld (Q : Blackboard → Prop) (hQ : ∀ bb ev, Q bb → Q (bb.emit ev).1) :
    (Coupling.ofBoards m b fun x y => y = x ∧ Q x.2).Upheld m m := by
  refine Coupling.ofBoards_upheld hlib hb (fun _ _ v _ s x y hxy => by rw [hxy.1]) (fun n n' bb bb' hn => ?_)
    m.config.trace fun depth i ev => Coupling.relates_trace (fun n n' bb bb' ev hn => ?_) (fun _ => trivial) ev
  · obtain ⟨hsame, hq⟩ := hn
    cases hsame
    exact ⟨rfl, hq⟩
  · obtain ⟨hsame, hq⟩ := hn
    cases hsame
    exact ⟨rfl, rfl, hQ bb _ hq⟩

namespace Tree

theorem Settled.call {t : Tree b} (ht : t.Settled m) (bb : Blackboard) (a : Act) : (t.call m bb a).2.1.Settled m := by
  have hup := Coupling.keeping_upheld hlib hb (fun _ => True) fun _ _ _ => trivial
  have hcall := (hup.call (ht.pairs _ bb bb ⟨rfl, trivial⟩) a).pairs.holds
  exact ⟨hcall.depth, hcall.data⟩

theorem settled_after (acts : List (Act × Blackboard)) : ((Tree.new b).after m acts).Settled m :=
  Tree.after_induction (P := fun t => t.Settled m) (A := fun _ => True)
    (fun _ a bb _ ht => ht.call hlib hb bb a) acts (fun _ _ => trivial) ⟨rfl, m.intact_defaults⟩

end Tree

end

end BehaviorTree
