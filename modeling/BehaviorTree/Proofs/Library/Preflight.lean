import BehaviorTree.Proofs.Library.Access
import BehaviorTree.Proofs.Library.Coupled
import BehaviorTree.Proofs.Library.Soundness

/-!
# A tree whose components can be listed is ready to run

The list of components is made from the default data, where ticks read the data of the run. But no run
changes the handles of a timer. So the types and strategies that were found for the list are found by every
call.
-/

namespace BehaviorTree

open Library Run

variable {b : Blob} {m : Machine} {i : Nat}

/-! ## Nodes of the host -/

/-- A property of instances that has nothing to do with the data of node `i`, with results or the number of
ticks. -/
def Instance.Overlooks (i : Nat) (P : Instance b → Prop) : Prop :=
  ∀ s s' : Instance b, P s → s'.depth = s.depth → (∀ k : Nat, ¬ b.InSpan i k → s'.data[k]? = s.data[k]?) → P s'

/-- `P` stays, and a failure is one of `F`. -/
def Run.Keeps {α : Type} (P : Instance b → Prop) (F : Fault → Prop) (x : Run b α) : Prop :=
  ∀ w, P w.inst → x.Yields w fun r w' => P w'.inst ∧ Checked.FailsBy F r

/-- A behavior that writes only its own data and the blackboard, and may tick and reset other nodes: what it does
itself breaks no property that overlooks these data, and its failures are those of its ticks and resets or among
`F`. -/
structure Behavior.WritesOwn (bh : Behavior) (b : Blob) (F : Fault → Prop) : Prop where
  reset : ∀ i < b.size, ∀ P : Instance b → Prop, Instance.Overlooks i P → (bh.reset i).Keeps P F
  tick : ∀ rs (cb : Callbacks b), ∀ i < b.size, ∀ P : Instance b → Prop, Instance.Overlooks i P →
    (∀ c, (cb.tick c).Keeps P F) → (∀ c, (cb.reset c).Keeps P F) → (bh.tick rs cb i).Keeps P F

/-! ## Timers -/

theorem Machine.not_foreseen_readAt (hhead : ∀ j, m.behaviorAt b j = .ok delay → 0 < b.extent j)
    (s : Instance b) (t : ValueType) (ht : t.size ≠ PlainData.delayData.type.size) (j o : Nat) :
    (s.readAt t j o).FailsBy fun e => ¬ m.Foreseen b e := by
  rcases Nat.lt_or_ge j b.size with hj | hj
  · rw [s.readAt_eq hj, Cell.read]
    split
    · rename_i hzero
      refine .error ?_
      rintro ⟨⟩
      rename_i hbh
      rw [s.length_bytes_cell hj] at hzero
      exact absurd (hhead j hbh) (by omega)
    split
    · exact .ok _
    · exact .error fun hf => ht hf.length_eq
  · rw [s.readAt_of_le hj]
    exact .error (by rintro ⟨⟩)

/-- A handle whose strategy is known. -/
theorem Variable.Declared.read_failsBy {v : Variable} {l : AccessList} (hv : v.Declared m.registries l)
    (hhead : ∀ j, m.behaviorAt b j = .ok delay → 0 < b.extent j) (s : Instance b) (bb : Blackboard) :
    (v.read m.registries PlainData.f32.type i s bb).FailsBy fun e => ¬ m.Foreseen b e := by
  obtain ⟨st, hst, -⟩ := hv
  have hoffset : (Checked.ofExcept (v.payloadOffset i)).FailsBy fun e => ¬ m.Foreseen b e := by
    refine .ofExcept fun e he => ?_
    unfold Variable.payloadOffset at he
    split at he
    · cases he
    · cases he
      rintro ⟨⟩
  have hread := fun t ht j o => Machine.not_foreseen_readAt hhead s t ht j o
  have hboard : ∀ {α : Type} (x : Except BoardError α), (Checked.ofBoard x).FailsBy fun e => ¬ m.Foreseen b e :=
    fun _ => .ofBoard fun _ _ => by rintro ⟨⟩
  have hpayload : ∀ {α : Type} (p : PlainData α), p.type.size ≠ PlainData.delayData.type.size →
      (Strategy.payload v i s p).FailsBy fun e => ¬ m.Foreseen b e := fun p hp =>
    hoffset.bind fun o _ => (hread p.type hp i o).bind fun _ _ => .ok _
  rw [Variable.read, hst, Checked.ofExcept_ok, Checked.ok_bind]
  cases st with
  | constant => exact hoffset.bind fun o _ => hread _ (by decide) i o
  | blackboard => exact (hpayload _ (by decide)).bind fun key _ => hboard _
  | node => exact (hpayload _ (by decide)).bind fun ref _ => hread _ (by decide) _ _
  | component c field mode => exact (hboard _).bind fun x _ => .ok _

/-! ## Runs -/

/-- A run and itself, on memories that keep the handles of all timers. -/
def Machine.readyCoupling (m : Machine) (b : Blob) : Coupling b where
  data := m.Intact
  board := Eq
  fault e := ¬ m.Foreseen b e

namespace Machine

variable {l : AccessList} {depth : Nat}

theorem readyCoupling_holds {w v : World b} :
    (m.readyCoupling b).Holds depth w v ↔ v = w ∧ w.inst.depth = depth ∧ m.Intact w.inst.data := by
  constructor
  · intro h
    obtain ⟨s, bb⟩ := w
    obtain ⟨s', bb'⟩ := v
    have hdepth : s.depth = depth := h.depth
    have hinst : s' = s.stamp s'.tick depth := h.inst
    obtain ⟨htick, hbb⟩ := Prod.mk.inj h.board
    change s.tick = s'.tick at htick
    change bb = bb' at hbb
    rw [← htick, ← hdepth] at hinst
    cases hinst
    cases hbb
    exact ⟨rfl, hdepth, h.data⟩
  · rintro ⟨rfl, rfl, hdata⟩
    exact ⟨rfl, rfl, hdata, rfl⟩

theorem relates_of_keeps {α : Type} {x : Run b α}
    (hx : x.Keeps (fun s => s.depth = depth ∧ m.Intact s.data) fun e => ¬ m.Foreseen b e) :
    Relates ((m.readyCoupling b).Holds depth) (m.readyCoupling b).fault x x := by
  intro w v hw
  obtain ⟨rfl, hdepth, hdata⟩ := readyCoupling_holds.mp hw
  obtain ⟨⟨hdepth', hdata'⟩, hfails⟩ := hx v ⟨hdepth, hdata⟩
  exact ⟨rfl, readyCoupling_holds.mpr ⟨rfl, hdepth', hdata'⟩, hfails⟩

theorem keeps_of_relates {α : Type} {x : Run b α}
    (hx : Relates ((m.readyCoupling b).Holds depth) (m.readyCoupling b).fault x x) :
    x.Keeps (fun s => s.depth = depth ∧ m.Intact s.data) fun e => ¬ m.Foreseen b e := by
  rintro w ⟨hdepth, hdata⟩
  obtain ⟨-, hw, hfails⟩ := hx w w (readyCoupling_holds.mpr ⟨rfl, hdepth, hdata⟩)
  exact ⟨(readyCoupling_holds.mp hw).2, hfails⟩

theorem readyCoupling_suits (h : m.componentAccess b = .ok l) : (m.readyCoupling b).Suits m where
  data _ _ hd hk := hd.after hk
  fault _ he := he
  head _ hbh := .inl (timer_of_componentAccess h hbh).1
  handles i hbh depth w v hw := by
    obtain ⟨rfl, -, hdata⟩ := readyCoupling_holds.mp hw
    have hhead : ∀ j, m.behaviorAt b j = .ok delay → 0 < b.extent j := fun j hj =>
      Nat.lt_of_lt_of_le (by decide) (timer_of_componentAccess h hj).1
    rw [(hdata.sameTimer hbh).handles]
    exact fun u hu => ⟨rfl, ((timer_of_componentAccess h hbh).2 u hu).read_failsBy hhead v.inst v.board⟩

/-- The behaviors of the machine are those of the library and such as write only their own data. -/
def HostsWriteOwn (m : Machine) (b : Blob) : Prop := ∀ id bh, m.behavior? id = some bh →
  bh ∈ Library.behaviors.map (·.2) ∨ bh.WritesOwn b fun e => ¬ m.Foreseen b e

theorem readyCoupling_upheld (hhosts : m.HostsWriteOwn b) (h : m.componentAccess b = .ok l) :
    (m.readyCoupling b).Upheld m m := by
  refine (readyCoupling_suits h).upheld m.config.trace (fun i e he => ?_) (fun n n' bb bb' heq => ?_)
    (fun depth i ev => relates_of_keeps fun w hw => ?_) fun i bh hbh hlib depth => ?_
  · rcases Nat.lt_or_ge i b.size with hi | hi
    · obtain ⟨bh, hbh, -⟩ := componentAccess_eq_ok h hi
      cases hbh.symm.trans he
    · rw [behaviorAt, if_pos hi] at he
      cases he
      rintro ⟨⟩
  · obtain ⟨rfl, rfl⟩ := Prod.mk.inj heq
    rfl
  · refine (m.trace_yields i ev w).mono ?_
    rintro r w' ⟨hinst, hfails⟩
    rw [hinst]
    refine ⟨hw, fun e he => ?_⟩
    obtain ⟨-, err, rfl, -⟩ := hfails e he
    rintro ⟨⟩
  · have hi := lt_of_behaviorAt hbh
    obtain ⟨id, -, hid⟩ := behaviorAt_eq_ok hbh
    have hwrites := (hhosts id bh hid).resolve_left hlib
    have hne : m.behaviorAt b i ≠ .ok delay := fun hd => hlib (by
      rw [Except.ok.inj (hbh.symm.trans hd)]
      exact List.mem_map_of_mem (f := (·.2)) (a := (delayId, delay)) (by simp [Library.behaviors]))
    have hover : Instance.Overlooks i fun s : Instance b => s.depth = depth ∧ m.Intact s.data :=
      fun s s' hs hdepth hdata => ⟨hdepth.trans hs.1, hs.2.after fun k hk =>
        .inl (hdata k fun hin => hk (m.free_of_ne hi hne hin))⟩
    refine ⟨relates_of_keeps (hwrites.reset i hi _ hover), fun cb cb' hsame htick hreset => ?_⟩
    rw [hsame rfl] at htick hreset ⊢
    exact relates_of_keeps (hwrites.tick _ cb i hi _ hover (fun c => keeps_of_relates (htick c)) fun c =>
      keeps_of_relates (hreset c))

end Machine

namespace Tree

/-- If the components of a tree can be listed, then no call on it, whatever calls came before, fails for a
reason that could have been foreseen. -/
theorem unforeseen_of_componentAccess {l : AccessList} (hhosts : m.HostsWriteOwn b)
    (h : m.componentAccess b = .ok l) (acts : List (Act × Blackboard)) :
    ∀ x ∈ (Tree.new b).answers m acts, ∀ e, x.1 = .error e → ¬ m.Foreseen b e := by
  have hnew : (m.readyCoupling b).Pairs (Tree.new b) (Tree.new b) .empty .empty :=
    ⟨Machine.readyCoupling_holds.mpr ⟨rfl, rfl, m.intact_defaults⟩, rfl⟩
  have hadmits : ∀ x ∈ acts.map fun x => (x.1, x.2, x.2), (m.readyCoupling b).Admits x.2.1 x.2.2 := by
    intro x hx n n' old old' heq
    obtain ⟨y, -, rfl⟩ := List.mem_map.mp hx
    rw [(Prod.mk.inj heq).1]
    rfl
  obtain ⟨-, hfails, -⟩ := (Machine.readyCoupling_upheld hhosts h).answers _ ⟨_, _, hnew⟩ hadmits
  simp only [List.map_map, Function.comp_def, List.map_id'] at hfails
  exact hfails

theorem unforeseen_of_componentAccess_timer : Machine.ofLibrary.HostsWriteOwn .timer ∧
    Machine.ofLibrary.componentAccess .timer = .ok .empty ∧
    (((Tree.new .timer).answers .ofLibrary [(.tickAt 0, .empty), (.reset, .empty)]).map (·.1)) =
      [.error (.error (.board (.missingKey deltaTimeKey))), .ok none] ∧
    ∀ x ∈ (Tree.new .timer).answers .ofLibrary [(.tickAt 0, .empty), (.reset, .empty)],
      ∀ e, x.1 = .error e → ¬ Machine.ofLibrary.Foreseen .timer e := by
  have hhosts : Machine.ofLibrary.HostsWriteOwn .timer :=
    Machine.registerLibrary_induction (fun _ _ h => by cases Machine.behavior?_empty.symm.trans h) fun _ hx =>
      .inl (List.mem_map_of_mem hx)
  have haccess : Machine.ofLibrary.componentAccess .timer = .ok .empty := by decide +kernel
  exact ⟨hhosts, haccess, by decide +kernel, unforeseen_of_componentAccess hhosts haccess _⟩

end Tree

end BehaviorTree
