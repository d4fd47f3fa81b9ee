import BehaviorTree.Proofs.Instance.Memory
import BehaviorTree.Proofs.Machine.Runs
import BehaviorTree.Proofs.Machine.Table
import BehaviorTree.Proofs.Run.Relate

/-!
# Two runs side by side

A coupling says what two runs of one tree have to do with each other while they keep the same memory and the
same results: what is known of the memory, how their counters and blackboards compare, and how a call may
fail. Machines uphold it if their behaviors and their trace do; then every call does.
-/

namespace BehaviorTree

open Run

structure Coupling (b : Blob) where
  data : Buffer b.regionSize → Prop
  /-- Of the tick counters and the blackboards of the two. -/
  board : UInt64 × Blackboard → UInt64 × Blackboard → Prop
  fault : Fault → Prop

namespace Coupling

variable {b : Blob} {C : Coupling b} {m m' : Machine} {w v : World b} {i depth : Nat}

/-- The two worlds at a nesting depth. -/
structure Holds (C : Coupling b) (depth : Nat) (w v : World b) : Prop where
  inst : v.inst = w.inst.stamp v.inst.tick depth
  depth : w.inst.depth = depth
  data : C.data w.inst.data
  board : C.board (w.inst.tick, w.board) (v.inst.tick, v.board)

/-- Worlds at the same tick have the same instance. -/
theorem Holds.inst_eq (h : C.Holds depth w v) (ht : v.inst.tick = w.inst.tick) : v.inst = w.inst := by
  rw [h.inst, ht, ← h.depth]
  rfl

/-! ## Accesses -/

section Accesses

variable {α β : Type}

theorem relates_read {g : Instance b → Checked α} {f f' : α → Run b β}
    (hg : ∀ (s : Instance b) tick depth, g (s.stamp tick depth) = g s)
    (hfault : ∀ s, C.data s.data → (g s).FailsBy C.fault)
    (hf : ∀ a, Relates (C.Holds depth) C.fault (f a) (f' a)) :
    Relates (C.Holds depth) C.fault (inst >>= fun s => Run.lift (g s) >>= f)
      (inst >>= fun s => Run.lift (g s) >>= f') := by
  intro w v h
  have hsame : g v.inst = g w.inst := by
    rw [h.inst, hg]
  rw [agrees_inst_bind, hsame]
  exact Relates.lift_bind (hfault _ h.data) (fun a _ => hf a) w v h

theorem Holds.update (h : C.Holds depth w v) {f : Instance b → Checked (Instance b)}
    (hf : Instance.Untimed f) (hfault : (f w.inst).FailsBy C.fault)
    (hdata : ∀ s, f w.inst = .ok s → C.data s.data) : (Run.update f).Agrees w (Run.update f) v
      fun r w' v' => C.Holds depth w' v' ∧ Checked.FailsBy C.fault r := by
  have hv : f v.inst = (·.stamp v.inst.tick depth) <$> f w.inst := by
    rw [← hf w.inst v.inst.tick depth, ← h.inst]
  simp only [Agrees, yields_update, hv]
  cases hw : f w.inst with
  | error e => exact ⟨rfl, h, .error (hfault e hw)⟩
  | ok s =>
      obtain ⟨htick, hdepth⟩ := hf.counters hw
      refine ⟨trivial, ⟨rfl, hdepth.trans h.depth, hdata _ hw, ?_⟩, .ok _⟩
      change C.board (s.tick, w.board) (v.inst.tick, v.board)
      rw [htick]
      exact h.board

theorem relates_update {f : Instance b → Checked (Instance b)} (hf : Instance.Untimed f)
    (hfault : ∀ s, C.data s.data → (f s).FailsBy C.fault)
    (hdata : ∀ s s', f s = .ok s' → C.data s.data → C.data s'.data) :
    Relates (C.Holds depth) C.fault (update f) (update f) := fun _ _ h =>
  h.update hf (hfault _ h.data) fun s hs => hdata _ s hs h.data

theorem relates_state {f f' : Option Status → Run b β} (hi : i < b.size)
    (hf : ∀ st, Relates (C.Holds depth) C.fault (f st) (f' st)) :
    Relates (C.Holds depth) C.fault (inst >>= fun s => Run.lift (s.state i) >>= f)
      (inst >>= fun s => Run.lift (s.state i) >>= f') :=
  relates_read (fun _ _ _ => rfl) (fun s _ => s.state_eq hi ▸ .ok _) hf

theorem relates_clearSubtree (hi : i < b.size) :
    Relates (C.Holds depth) C.fault (clearSubtree i) (clearSubtree i) := by
  refine .lift_bind (Blob.endOf_eq hi ▸ .ok _) fun stop hstop => ?_
  rw [Blob.endOf_eq hi] at hstop
  cases hstop
  refine relates_update (.clearStates i _) (fun s _ => ?_) fun _ _ hs hd => Instance.clearStates_data hs ▸ hd
  obtain ⟨s', hs', -⟩ := s.clearStates_clears (Nat.le_of_lt (Blob.lt_stop hi)) (Blob.stop_le hi)
  exact hs' ▸ .ok _

theorem relates_abort (hfault : b.size ≤ i → C.fault (.error (.indexOutOfRange i b.size))) :
    Relates (C.Holds depth) C.fault (Machine.abort i) (Machine.abort i) := by
  unfold Machine.abort
  split
  · rename_i hi
    exact .fail (hfault hi)
  · rename_i hi
    exact relates_clearSubtree (Nat.lt_of_not_le hi)

/-- Events that go to both blackboards. -/
theorem relates_trace (hemit : ∀ n n' bb bb' ev, C.board (n, bb) (n', bb') →
      (bb'.emit ⟨n', i, ev⟩).2 = (bb.emit ⟨n, i, ev⟩).2 ∧
        C.board (n, (bb.emit ⟨n, i, ev⟩).1) (n', (bb'.emit ⟨n', i, ev⟩).1))
    (hfault : ∀ e, C.fault (.error (.board e))) (ev : NodeEvent) :
    Relates (C.Holds depth) C.fault (m.trace i ev) (m.trace i ev) := by
  intro w v h
  unfold Machine.trace
  split
  · obtain ⟨hr, hboard⟩ := hemit _ _ _ _ ev h.board
    simp only [Agrees, emit, yields_bind, yields_board, yields_inst, yields_setBoard, yields_lift, hr, true_and]
    exact ⟨⟨h.inst, h.depth, h.data, hboard⟩, .ofBoard fun e _ => hfault e⟩
  · exact ⟨rfl, h, .ok _⟩

end Accesses

/-- The machines treat their nodes alike. -/
structure Upheld (C : Coupling b) (m m' : Machine) : Prop where
  limit : m'.config.maxTickDepth = m.config.maxTickDepth
  behaviorAt : ∀ i, m'.behaviorAt b i = m.behaviorAt b i
  unknown : ∀ i e, m.behaviorAt b i = .error e → C.fault e
  depthExceeded : ∀ i, C.fault (.error (.depthExceeded i m.config.maxTickDepth))
  outOfBounds : C.fault .outOfBounds
  restore : ∀ d d', C.data d → (∀ k : Nat, d'[k]? = d[k]? ∨ d'[k]? = (Instance.defaults b)[k]?) → C.data d'
  advance : ∀ n n' bb bb', C.board (n, bb) (n', bb') → C.board (n + 1, bb) (n' + 1, bb')
  trace : ∀ depth i ev, Relates (C.Holds depth) C.fault (m.trace i ev) (m'.trace i ev)
  reset : ∀ i bh, m.behaviorAt b i = .ok bh → ∀ depth,
    Relates (C.Holds depth) C.fault (bh.reset i) (bh.reset i)
  tick : ∀ i bh, m.behaviorAt b i = .ok bh → ∀ depth room,
    (∀ c, Relates (C.Holds depth) C.fault (m.tickWithin room c) (m'.tickWithin room c)) →
    (∀ c, Relates (C.Holds depth) C.fault (m.reset c) (m'.reset c)) →
      Relates (C.Holds depth) C.fault (bh.tick m.registries ⟨m.tickWithin room, m.reset⟩ i)
        (bh.tick m'.registries ⟨m'.tickWithin room, m'.reset⟩ i)

namespace Upheld

section Machines

variable (h : C.Upheld m m')

include h

theorem lookup_bind {α : Type} {f f' : Behavior → Run b α}
    (hf : ∀ bh, m.behaviorAt b i = .ok bh → Relates (C.Holds depth) C.fault (f bh) (f' bh)) :
    Relates (C.Holds depth) C.fault (Run.lift (m.behaviorAt b i) >>= f)
      (Run.lift (m'.behaviorAt b i) >>= f') := by
  rw [h.behaviorAt i]
  exact .lift_bind (h.unknown i) hf

theorem abort (i : Nat) : Relates (C.Holds depth) C.fault (Machine.abort i) (Machine.abort i) :=
  relates_abort fun hi => h.unknown i _ (if_pos hi)

theorem activate (hi : i < b.size) {bh : Behavior} (hbh : m.behaviorAt b i = .ok bh) :
    Relates (C.Holds depth) C.fault (m.activate bh i) (m'.activate bh i) := by
  refine Relates.bind ?_ fun _ => (h.reset i bh hbh depth).bind fun _ => h.trace depth i .reset
  refine relates_update (.restore i) (fun s _ => ?_) fun s s' hs hd => h.restore _ _ hd fun k => ?_
  · obtain ⟨s', hs', -⟩ := s.restore_sets hi
    exact hs' ▸ .ok _
  · rw [Instance.restore_data hi hs]
    split
    · exact .inr rfl
    · exact .inl rfl

theorem prepare_bind {α : Type} {f f' : Behavior → Run b α}
    (hf : ∀ bh, m.behaviorAt b i = .ok bh → Relates (C.Holds depth) C.fault (f bh) (f' bh)) :
    Relates (C.Holds depth) C.fault (m.prepare i >>= f) (m'.prepare i >>= f') := by
  simp only [Machine.prepare, bind_assoc]
  refine h.lookup_bind fun bh hbh => ?_
  have hi := Machine.lt_of_behaviorAt hbh
  refine relates_state hi fun st => ?_
  split
  · rw [bind_assoc, bind_assoc]
    exact (h.activate hi hbh).bind fun _ => hf bh hbh
  · exact hf bh hbh

theorem restoreAt (i : Nat) :
    Relates (C.Holds depth) C.fault (update (·.resetSubtree i)) (update (·.resetSubtree i)) := by
  refine relates_update (.resetSubtree i) (fun s _ => ?_) fun s s' hs hd => h.restore _ _ hd fun k => ?_
  · rcases Nat.lt_or_ge i b.size with hi | hi
    · obtain ⟨s', hs', -⟩ := s.resetSubtree_renews hi
      exact hs' ▸ .ok _
    · rw [s.resetSubtree_of_le hi]
      exact .error h.outOfBounds
  · rcases Nat.lt_or_ge i b.size with hi | hi
    · rw [Instance.resetSubtree_data hi hs]
      split
      · exact .inr rfl
      · exact .inl rfl
    · rw [s.resetSubtree_of_le hi] at hs
      cases hs

theorem resetAt (i : Nat) : Relates (C.Holds depth) C.fault (m.reset i) (m'.reset i) := by
  refine h.lookup_bind fun bh hbh => (h.restoreAt i).bind fun _ => ?_
  have hi := Machine.lt_of_behaviorAt hbh
  refine .lift_bind (Blob.endOf_eq hi ▸ .ok _) fun stop _ => ?_
  refine (Relates.forM fun j _ => ?_).bind fun _ => h.trace depth i .reset
  exact h.lookup_bind fun bh hbh => h.reset j bh hbh depth

/-- The tick function runs one level deeper, and the level is left also when it fails. -/
theorem settle {room : Nat} (hroom : ∀ c, Relates (C.Holds (depth + 1)) C.fault (m.tickWithin room c)
    (m'.tickWithin room c)) (i : Nat) :
    Relates (C.Holds depth) C.fault (m.settle room i) (m'.settle room i) := by
  refine h.prepare_bind fun bh hbh w v hw => ?_
  have hi := Machine.lt_of_behaviorAt hbh
  have henter : C.Holds (depth + 1) { w with inst := w.inst.enter } { v with inst := v.inst.enter } :=
    ⟨by rw [hw.inst]; rfl, congrArg (· + 1) hw.depth, hw.data, hw.board⟩
  rw [agrees_inst_bind, agrees_setInst_bind]
  refine Agrees.bind (P := fun r w' v' => ∃ r', r = .ok r' ∧ C.Holds (depth + 1) w' v' ∧
    Checked.FailsBy C.fault r') ?_ ?_ ?_
  · have htick := h.tick i bh hbh (depth + 1) room hroom h.resetAt _ _ henter
    exact Agrees.attempt (htick.mono fun r _ _ h' => ⟨r, rfl, h'⟩)
  · rintro r w' v' ⟨r', hr, h', hfails⟩
    obtain rfl := Except.ok.inj hr
    have hleave : C.Holds depth { w' with inst := w'.inst.leave } { v' with inst := v'.inst.leave } :=
      ⟨by rw [h'.inst]; rfl, congrArg (· - 1) h'.depth, h'.data, h'.board⟩
    rw [agrees_inst_bind, agrees_setInst_bind]
    cases r with
    | error e => exact (relates_clearSubtree hi).bind (fun _ => .throw (hfails e rfl)) _ _ hleave
    | ok s =>
        refine Relates.bind ?_ (fun _ => .pure s) _ _ hleave
        refine relates_update (.setState i s) (fun u _ => ?_) fun _ _ hu hd => Instance.setState_data hu ▸ hd
        obtain ⟨u', hu', -⟩ := u.setState_sets hi s
        exact hu' ▸ .ok _
  · -- the attempt itself never fails
    rintro e w' v' ⟨r', hr, -⟩
    cases hr

theorem tickWithin : ∀ (room i depth : Nat),
    Relates (C.Holds depth) C.fault (m.tickWithin room i) (m'.tickWithin room i)
  | 0, i, depth => by
      refine h.prepare_bind fun _ _ => ?_
      rw [h.limit]
      exact .fail (h.depthExceeded i)
  | room + 1, i, depth => by
      rw [m.tickWithin_succ, m'.tickWithin_succ]
      exact (h.settle (fun c => tickWithin room c (depth + 1)) i).bind fun s =>
        (h.trace depth i (.tick s)).bind fun _ => .pure s

theorem tickAt (i : Nat) : Relates (C.Holds depth) C.fault (m.tick i) (m'.tick i) := by
  intro w v hw
  have hdepth : v.inst.depth = w.inst.depth := by rw [hw.inst, hw.depth]; rfl
  unfold Machine.tick
  rw [agrees_inst_bind, hdepth, h.limit]
  exact h.tickWithin _ i depth w v hw

theorem restoreAll : Relates (C.Holds 0) C.fault (update fun s => .ok s.resetAll) (update fun s => .ok s.resetAll) :=
  fun _ _ hw => ⟨rfl, ⟨rfl, rfl, h.restore _ _ hw.data fun _ => .inr rfl, hw.board⟩, .ok _⟩

end Machines

end Upheld

/-! ## Calls -/

/-- Two trees between calls. -/
structure Pairs (C : Coupling b) (t t' : Tree b) (bb bb' : Blackboard) : Prop where
  holds : C.Holds 0 ⟨t.inst, bb⟩ ⟨t'.inst, bb'⟩
  last : t'.last = t.last

/-- Two outcomes of calls. -/
structure Answers (C : Coupling b) {α : Type} (x y : Except Fault α × Tree b × Blackboard) : Prop where
  answer : y.1 = x.1
  pairs : C.Pairs x.2.1 y.2.1 x.2.2 y.2.2
  fails : Checked.FailsBy C.fault x.1

theorem Answers.map {α β : Type} {x y : Except Fault α × Tree b × Blackboard} (h : C.Answers x y) (f : α → β) :
    C.Answers (x.1.map f, x.2) (y.1.map f, y.2) :=
  ⟨congrArg (·.map f) h.answer, h.pairs, fun e he => h.fails e (Checked.map_eq_error.mp he)⟩

variable {t t' : Tree b} {bb bb' : Blackboard}

theorem Pairs.run {α : Type} (ht : C.Pairs t t' bb bb') {x y : Run b α}
    (hx : Relates (C.Holds 0) C.fault x y) : C.Answers (t.run bb x) (t'.run bb' y) := by
  obtain ⟨hr, hw, hf⟩ := hx _ _ ht.holds
  exact ⟨hr, ⟨hw, ht.last⟩, hf⟩

namespace Upheld

theorem tree_tick (h : C.Upheld m m') (ht : C.Pairs t t' bb bb') :
    C.Answers (t.tick m bb) (t'.tick m' bb') := by
  have hadv : C.Pairs { t with inst := t.inst.advance } { t' with inst := t'.inst.advance } bb bb' :=
    ⟨⟨congrArg Instance.advance ht.holds.inst, ht.holds.depth, ht.holds.data,
      h.advance _ _ _ _ ht.holds.board⟩, ht.last⟩
  have hx := hadv.run (h.tickAt 0)
  unfold Tree.tick
  generalize ({ t with inst := t.inst.advance } : Tree b).run bb (m.tick 0) = x at hx ⊢
  generalize ({ t' with inst := t'.inst.advance } : Tree b).run bb' (m'.tick 0) = y at hx ⊢
  obtain ⟨r, t₁, bb₁⟩ := x
  obtain ⟨r', t₁', bb₁'⟩ := y
  obtain ⟨hr, hp, hf⟩ := hx
  change r' = r at hr
  subst hr
  cases r' with
  | ok s => exact ⟨rfl, ⟨hp.holds, rfl⟩, hf⟩
  | error e => exact ⟨rfl, hp, hf⟩

theorem call (h : C.Upheld m m') (ht : C.Pairs t t' bb bb') (a : Act) :
    C.Answers (t.call m bb a) (t'.call m' bb' a) := by
  have hunit : ∀ x y : Run b Unit, Relates (C.Holds 0) C.fault x y →
      C.Answers (t.run bb (do x; return (none : Option Status))) (t'.run bb' (do y; return none)) :=
    fun x y hx => ht.run (hx.bind fun _ => .pure none)
  cases a with
  | tick => exact (h.tree_tick ht).map some
  | reset =>
      have hlast : C.Pairs { t with last := none } { t' with last := none } bb bb' := ⟨ht.holds, rfl⟩
      exact (hlast.run (h.resetAt 0)).map _
  | tickAt i => exact ht.run ((h.tickAt i).bind fun s => .pure (some s))
  | resetAt i => exact hunit _ _ (h.resetAt i)
  | abortAt i => exact hunit _ _ (h.abort i)
  | restoreAt i => exact hunit _ _ (h.restoreAt i)
  | restoreAll => exact hunit _ _ h.restoreAll

end Upheld

end Coupling

end BehaviorTree
