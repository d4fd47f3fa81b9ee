import BehaviorTree.Proofs.Library.Running
import BehaviorTree.Proofs.Library.Soundness
import BehaviorTree.Proofs.Library.Steps
import BehaviorTree.Proofs.Library.Twins

/-!
# Ticks treat twins alike

Accesses of a node in progress to its own data, and aborts, treat twins alike. These are all a node does but
for the ticks of its children, whether it is of the library or of a host that keeps to its own data and the
blackboard.
-/

namespace BehaviorTree

open Library Run

variable {b : Blob} {m : Machine} {i : Nat}

/-! ## Accesses of a node in progress -/

namespace Twins

variable {S : Nat → Prop} {w v w' v' : World b}

theorem puts (h : Twins m S w v) {c : Except Error Cell} {r r' : Except Fault Unit}
    (hself : ∀ c', c = .ok c' → m.SelfContained b i c'.bytes) (hw : Puts w i c r w') (hv : Puts v i c r' v') :
    r' = r ∧ Twins m S w' v' := by
  cases c with
  | error e =>
      obtain ⟨rfl, rfl⟩ := hw
      obtain ⟨rfl, rfl⟩ := hv
      exact ⟨rfl, h⟩
  | ok c =>
      obtain ⟨rfl, hset, hb⟩ := hw
      obtain ⟨rfl, hset', hb'⟩ := hv
      refine ⟨rfl, (h.touch hset.frame hset'.frame (by rw [hset.self, hset'.self]) ?_ ?_).mono
        fun _ hj => Or.inl hj⟩
      · rw [hset.self]
        exact hself c rfl
      · rw [hb, hb', h.board]

theorem respects_readStatus (hi : i < b.size) (hS : S i) (k : Nat) :
    Respects (Twins m S) (readStatus i k : Run b Status) := by
  intro w v h
  simp only [Agrees, readStatus_yields hi, h.cell hS]
  exact ⟨trivial, h⟩

theorem respects_readHead {α : Type} (hi : i < b.size) (hS : S i) (p : PlainData α) :
    Respects (Twins m S) (readHead p i : Run b α) := by
  intro w v h
  simp only [Agrees, readHead_yields hi, h.cell hS]
  exact ⟨trivial, h⟩

theorem respects_writeStatus (hi : i < b.size) (hS : S i) (hbh : m.behaviorAt b i ≠ .ok delay) (k : Nat)
    (st : Status) : Respects (Twins m S) (writeStatus i k st : Run b Unit) := by
  intro w v h
  refine (writeStatus_puts hi st).mono fun r w' hw => (writeStatus_puts hi st).mono fun r' v' hv => ?_
  rw [h.cell hS] at hv
  exact h.puts (fun _ _ => .of_ne hbh _) hw hv

theorem respects_writeHead {α : Type} (hi : i < b.size) (hS : S i) (hbh : m.behaviorAt b i ≠ .ok delay)
    (p : PlainData α) (hp : p.type.align ∣ dataAlign) (a : α) :
    Respects (Twins m S) (writeHead p i a : Run b Unit) := by
  intro w v h
  refine (writeHead_yields hi p hp a).mono fun r w' hw => (writeHead_yields hi p hp a).mono fun r' v' hv => ?_
  rw [h.cell hS] at hv
  exact h.puts (fun _ _ => .of_ne hbh _) hw hv

theorem respects_clearSubtree (S : Nat → Prop) (hi : i < b.size) :
    Respects (Twins m S) (clearSubtree i : Run b Unit) := by
  intro w v h
  refine (clearSubtree_yields hi).mono fun r w' hw => (clearSubtree_yields hi).mono fun r' v' hv => ?_
  obtain ⟨rfl, hc, hb⟩ := hw
  obtain ⟨rfl, hc', hb'⟩ := hv
  exact ⟨rfl, h.clears hc hc' hb hb'⟩

theorem respects_abort (S : Nat → Prop) (i : Nat) :
    Respects (Twins m S) (Machine.abort i : Run b Unit) := by
  unfold Machine.abort
  split
  · exact .fail _
  · rename_i hi
    exact respects_clearSubtree S (Nat.lt_of_not_le hi)

theorem respects_state {α : Type} (i : Nat) {f : Option Status → Run b α}
    (hf : ∀ st, Respects (Twins m S) (f st)) :
    Respects (Twins m S) (Run.inst >>= fun s => lift (s.state i) >>= f) := by
  intro w v h
  rw [agrees_inst_bind, h.inst.state_eq i]
  exact ((Respects.lift (w.inst.state i)).bind hf) w v h

theorem respects_abortOne (S : Nat → Prop) (c : Nat) :
    Respects (Twins m S) (abortOne c : Run b Unit) := by
  refine respects_state c fun st => ?_
  split
  · exact respects_abort S c
  · exact .pure ()

theorem respects_trace (S : Nat → Prop) (i : Nat) (ev : NodeEvent) :
    Respects (Twins m S) (m.trace i ev : Run b Unit) := by
  intro w v h
  unfold Machine.trace
  split
  · simp only [Agrees, emit, yields_bind, yields_board, yields_inst, yields_setBoard, yields_lift, h.board,
      h.inst.tick]
    exact ⟨trivial, h.inst, rfl, h.timers⟩
  · exact ⟨rfl, h⟩

/-- A change of the cell of node `i` that comes to the same cell on both sides. -/
theorem sets_agrees (h : Twins m S w v) {f : Instance b → Checked (Instance b)} {g : Cell → Cell}
    (hf : ∀ s, ∃ s', f s = .ok s' ∧ s.Sets i (g (s.cell i)) s') (hg : g (v.inst.cell i) = g (w.inst.cell i))
    (hself : m.SelfContained b i (g (w.inst.cell i)).bytes) : (update f).Agrees w (update f) v
      fun r w' v' => r = .ok () ∧ Twins m (fun j => S j ∨ j = i) w' v' := by
  obtain ⟨s, hs, hset⟩ := hf w.inst
  obtain ⟨s', hs', hset'⟩ := hf v.inst
  simp only [Agrees, yields_update, hs, hs', true_and]
  have hcell : s'.cell i = s.cell i := by rw [hset.self, hset'.self, hg]
  rw [← hset.self] at hself
  exact h.touch hset.frame hset'.frame hcell hself h.board

theorem respects_sets (hS : S i) {f : Instance b → Checked (Instance b)} {g : Cell → Cell}
    (hf : ∀ s, ∃ s', f s = .ok s' ∧ s.Sets i (g (s.cell i)) s')
    (hself : ∀ c : Cell, m.SelfContained b i c.bytes → m.SelfContained b i (g c).bytes) :
    Respects (Twins m S) (update f) := by
  intro w v h
  refine (h.sets_agrees hf (by rw [h.cell hS]) (hself _ (h.timers i (Or.inl hS)))).mono ?_
  rintro r w' v' ⟨-, h'⟩
  exact h'.mono fun _ hj => Or.inl hj

theorem respects_setState (hi : i < b.size) (hS : S i) (st : Status) :
    Respects (Twins m S) (update (·.setState i st) : Run b Unit) :=
  respects_sets (g := fun c => { c with state := some st }) hS (fun s => s.setState_sets hi st) fun _ h => h

theorem respects_fill (hi : i < b.size) (hS : S i) (hbh : m.behaviorAt b i ≠ .ok delay) (byte : UInt8) :
    Respects (Twins m S) (update (·.fill i byte) : Run b Unit) :=
  respects_sets (g := fun c => { c with bytes := List.replicate (b.extent i) byte }) hS
    (fun s => s.fill_sets hi byte) fun _ _ => .of_ne hbh _

theorem respects_enter {α : Type} {x : Run b α} (hx : Respects (Twins m S) x) :
    Respects (Twins m S) (Run.inst >>= fun s => setInst s.enter >>= fun _ => x) := by
  intro w v h
  rw [agrees_inst_bind]
  exact hx _ _ ⟨⟨h.inst.state, h.inst.bytes, h.inst.tick, congrArg (· + 1) h.inst.depth⟩, h.board, h.timers⟩

theorem respects_leave {α : Type} {x : Run b α} (hx : Respects (Twins m S) x) :
    Respects (Twins m S) (Run.inst >>= fun s => setInst s.leave >>= fun _ => x) := by
  intro w v h
  rw [agrees_inst_bind]
  exact hx _ _ ⟨⟨h.inst.state, h.inst.bytes, h.inst.tick, congrArg (· - 1) h.inst.depth⟩, h.board, h.timers⟩

end Twins

/-! ## Leaves -/

/-- What `x` does is a matter of the data of node `i` and of the blackboard. -/
def Run.DependsOn {α : Type} (i : Nat) (x : Run b α) : Prop :=
  ∀ w v : World b, (v.inst.cell i).bytes = (w.inst.cell i).bytes → v.board = w.board →
    x.Agrees w x v fun _ w' v' => (v'.inst.cell i).bytes = (w'.inst.cell i).bytes ∧ v'.board = w'.board

/-- A behavior that reads and writes nothing but its own data and the blackboard. It may fail. -/
structure Behavior.IsPrivate (bh : Behavior) : Prop extends bh.IsLeaf where
  reset_dependsOn : ∀ {b : Blob} (i : Nat), i < b.size → (bh.reset i : Run b Unit).DependsOn i
  tick_dependsOn : ∀ {b : Blob} (rs : Registries) (cb : Callbacks b) (i : Nat), i < b.size →
    (bh.tick rs cb i).DependsOn i

/-- The behaviors of the machine are those of the library and private ones. -/
def Machine.Private (m : Machine) : Prop :=
  ∀ id bh, m.behavior? id = some bh → bh ∈ Library.behaviors.map (·.2) ∨ bh.IsPrivate

theorem Machine.Private.ofLibrary : Machine.ofLibrary.Private :=
  registerLibrary_induction (fun _ _ h => by cases behavior?_empty.symm.trans h) fun _ hx =>
    Or.inl (List.mem_map_of_mem hx)

namespace Twins

variable {S : Nat → Prop} {w v : World b}

theorem respects_private {α : Type} {x : Run b α} (hS : S i) (hbh : m.behaviorAt b i ≠ .ok delay)
    (hown : ∀ w : World b, x.Yields w fun _ w' => w.inst.OwnData i w'.inst) (hx : x.DependsOn i) :
    Respects (Twins m S) x := by
  intro w v h
  obtain ⟨hr, hbytes, hboard⟩ := hx w v (h.inst.bytes i (Or.inl hS)) h.board
  refine ⟨hr, (h.touch (hown w).toFrame (hown v).toFrame (Cell.eq_of ?_ hbytes) (.of_ne hbh _) hboard).mono
    fun _ hj => Or.inl hj⟩
  rw [(hown v).state, (hown w).state, h.inst.state i]

theorem readSingle_agrees (h : Twins m S w v) (hi : i < b.size) (hS : S i) {u : Variable}
    (hu : m.registries.strategy PlainData.f32.type u.id ≠ .ok .node) :
    (readSingle m.registries u i).Agrees w (readSingle m.registries u i) v fun _ w' v' => w' = w ∧ v' = v := by
  simp only [Agrees, readSingle, yields_bind, yields_inst, yields_board, yields_lift, yields_pure, h.board,
    Variable.read_congr hi hu (h.cell hS)]
  cases u.read m.registries PlainData.f32.type i w.inst w.board <;> simp

theorem respects_delay (hi : i < b.size) (hS : S i) (hbh : m.behaviorAt b i = .ok delay)
    (cb : Callbacks b) : Respects (Twins m S) (delay.tick m.registries cb i) := by
  intro w v h
  simp only [delay]
  refine Agrees.bind (P := fun r w' v' => w' = w ∧ v' = v ∧
    r = Checked.ofExcept (PlainData.delayData.decode <$> (w.inst.cell i).read PlainData.delayData.type i 0))
    ?_ ?_ ?_
  · simp only [Agrees, readHead_yields hi, h.cell hS, and_self]
  · rintro d w' v' ⟨rfl, rfl, hd⟩
    cases hread : (w'.inst.cell i).read PlainData.delayData.type i 0 with
    | error e =>
        rw [hread] at hd
        cases hd
    | ok head =>
        rw [hread] at hd
        cases hd
        have hwin := Cell.read_window hread
        have hself := h.timers i (Or.inl hS) hbh
        rw [delayHandles_eq hwin, List.forall_mem_cons, List.forall_mem_singleton] at hself
        refine (h.readSingle_agrees hi hS hself.1).bind ?_ fun _ _ _ hs => hs.1 ▸ hs.2 ▸ h
        rintro duration w₁ v₁ ⟨rfl, rfl⟩
        refine (h.readSingle_agrees hi hS hself.2).bind ?_ fun _ _ _ hs => hs.1 ▸ hs.2 ▸ h
        rintro delta w₁ v₁ ⟨rfl, rfl⟩
        refine Agrees.bind (P := fun _ => Twins m S) ?_ (fun _ _ _ h' => agrees_pure.mpr h') fun _ _ _ h' => h'
        refine (writeHead_yields hi .delayData ⟨2, rfl⟩ _).mono fun r w' hw =>
          (writeHead_yields hi .delayData ⟨2, rfl⟩ _).mono fun r' v' hv => ?_
        rw [h.cell hS] at hv
        refine h.puts (fun c hc _ => ?_) hw hv
        rw [Cell.write_bytes hc, delayHandles_elapse hwin, delayHandles_eq hwin, List.forall_mem_cons,
          List.forall_mem_singleton]
        exact hself
  · rintro e w' v' ⟨rfl, rfl, -⟩
    exact h

/-- A tick function treats twins alike if the ticks of other nodes do. -/
theorem respects_tickFunction (hm : m.Private) (hi : i < b.size) (hS : S i) {bh : Behavior}
    (hbh : m.behaviorAt b i = .ok bh) {cb : Callbacks b} (htick : ∀ c, Respects (Twins m S) (cb.tick c)) :
    Respects (Twins m S) (bh.tick m.registries cb i) := by
  by_cases hd : bh = delay
  · subst hd
    exact respects_delay hi hS hbh cb
  have hne : m.behaviorAt b i ≠ .ok delay := fun h => hd (Except.ok.inj (hbh.symm.trans h))
  by_cases hc : bh ∈ composites
  · refine relates_iff_respects.mp (StepsRelate.composite ⟨?_, ?_, ?_, ?_, ?_, ?_, ?_, trivial, trivial⟩ hi hc
      m.registries m.registries)
    · exact fun c => relates_iff_respects.mpr (htick c)
    · exact fun c => relates_iff_respects.mpr (respects_abortOne S c)
    · exact relates_iff_respects.mpr (.children i)
    · exact fun k => relates_iff_respects.mpr (respects_readStatus hi hS k)
    · exact fun k st => relates_iff_respects.mpr (respects_writeStatus hi hS hne k st)
    · exact relates_iff_respects.mpr (respects_readHead hi hS _)
    · exact fun d => relates_iff_respects.mpr (respects_writeHead hi hS hne _ ⟨2, rfl⟩ _)
  obtain ⟨id, -, hid⟩ := Machine.behaviorAt_eq_ok hbh
  rcases hm id bh hid with hlib | hpriv
  · obtain ⟨x, hx, rfl⟩ := List.mem_map.mp hlib
    rcases leaf_cases hx hc with rfl | rfl
    · exact respects_readStatus hi hS 0
    · exact absurd rfl hd
  · exact respects_private hS hne (hpriv.tick m.registries cb i) (hpriv.tick_dependsOn m.registries cb i hi)

theorem respects_resetFunction (hm : m.Private) (hi : i < b.size) (hS : S i) {bh : Behavior}
    (hbh : m.behaviorAt b i = .ok bh) : Respects (Twins m S) (bh.reset i : Run b Unit) := by
  by_cases hd : bh = delay
  · rw [hd]
    exact .pure ()
  obtain ⟨id, -, hid⟩ := Machine.behaviorAt_eq_ok hbh
  rcases hm id bh hid with hlib | hpriv
  · obtain ⟨x, hx, rfl⟩ := List.mem_map.mp hlib
    by_cases hp : x.2 = parallel
    · have hne : m.behaviorAt b i ≠ .ok delay := fun h => hd (Except.ok.inj (hbh.symm.trans h))
      rw [hp]
      exact respects_fill hi hS hne _
    · rw [reset_of_ne hx hp]
      exact .pure ()
  · exact respects_private hS (fun h => hd (Except.ok.inj (hbh.symm.trans h))) (hpriv.reset i)
      (hpriv.reset_dependsOn i hi)

end Twins

end BehaviorTree
