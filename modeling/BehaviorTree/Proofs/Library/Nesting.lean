import BehaviorTree.Proofs.Layout.Depths
import BehaviorTree.Proofs.Library.Faults
import BehaviorTree.Proofs.Library.Reentrance

/-!
# How deep ticks are nested

Composites tick their children only, so while a tick of the root is on its way to a node, the depth counter
counts the nodes above it. The depths that are computed from the layout foretell the counter: which value it
has wherever a node is ticked, and which nodes are ticked in vain because the limit is reached.
-/

namespace BehaviorTree

open Library Run

variable {b : Blob} {m : Machine} {i n : Nat} {α : Type}

/-! ## Watching the counter -/

namespace Run

/-- `alarm`, unless the depth counter is at `d`. -/
def unlessAt (alarm : Run b Unit) (d : Nat) : Run b Unit := do
  if (← inst).depth ≠ d then alarm

/-- `x`, with an alarm where it does not start and end at the depth `d`. -/
def watched (alarm : Run b Unit) (d : Nat) (x : Run b α) : Run b α := do
  alarm.unlessAt d
  let r ← x.attempt
  alarm.unlessAt d
  lift r

end Run

/-- `tickWithin` with an alarm. It sounds where a node `i` is not entered at the depth `ds i`, and where its
tick function does not run one level deeper, from its start to its end and around each of its ticks. -/
def Machine.tickWatched (m : Machine) (ds : Nat → Nat) (alarm : Run b Unit) : (room i : Nat) → Run b Status
  | 0, i => watched alarm (ds i) do
    let _ ← (m.prepare i : Run b Behavior)
    Run.fail (.depthExceeded i m.config.maxTickDepth)
  | room + 1, i => watched alarm (ds i) do
    let bh ← watched alarm (ds i) (m.prepare i)
    m.perform i <| watched alarm (ds i + 1) <|
      bh.tick m.registries ⟨fun c => watched alarm (ds i + 1) (m.tickWatched ds alarm room c), m.reset⟩ i

/-! ## Faults -/

/-- Another failure than that of a tick that is nested too deep. -/
def Fault.IsShallow (e : Fault) : Prop := ∀ i n, e ≠ .error (.depthExceeded i n)

theorem Fault.IsPlain.isShallow {e : Fault} (h : e.IsPlain) : e.IsShallow := by
  rintro i n rfl
  exact h

theorem Run.Plain.isShallow {x : Run b α} (h : x.Plain) : x.FailsBy Fault.IsShallow := fun w e he =>
  (h w e he).isShallow

/-- A leaf that ticks and resets no node, whatever it gets for that, and does not say itself that ticks are nested
too deep. -/
structure Behavior.IsShallow (bh : Behavior) : Prop extends bh.IsLeaf where
  reset_fails : ∀ {b : Blob} (i : Nat), (bh.reset i : Run b Unit).FailsBy Fault.IsShallow
  tick_fails : ∀ {b : Blob} (rs : Registries) (cb : Callbacks b) (i : Nat),
    (bh.tick rs cb i).FailsBy Fault.IsShallow
  tick_alone : ∀ {b : Blob} (rs : Registries) (cb cb' : Callbacks b) (i : Nat),
    bh.tick rs cb i = bh.tick rs cb' i

/-- The behaviors of the machine are those of the library and shallow leaves. -/
def Machine.Shallow (m : Machine) : Prop :=
  ∀ id bh, m.behavior? id = some bh → bh ∈ Library.behaviors.map (·.2) ∨ bh.IsShallow

namespace Library

/-- No step of a composite changes the counter or says that ticks are nested too deep. -/
theorem ownSteps_shallow (hi : i < b.size) :
    OwnSteps (fun x : Run b _ => x.Steady ∧ x.FailsBy Fault.IsShallow) i where
  pure a := ⟨(ownSteps_confined hi).pure a |>.steady, .pure a⟩
  abort c hc := ⟨(ownSteps_confined hi).abort c hc |>.steady, fun w =>
    (abortOne_kept (C := .anything b) (Blob.lt_size_of_mem_childList hi hc) w
      (Contract.on_anything _ _ _)).mono fun _ _ h => h.1 ▸ .ok ()⟩
  readStatus k := ⟨(ownSteps_confined hi).readStatus k |>.steady, (readStatus_plain i k).isShallow⟩
  writeStatus k st := ⟨(ownSteps_confined hi).writeStatus k st |>.steady, (writeStatus_plain hi k st).isShallow⟩
  readHead := ⟨(ownSteps_confined hi).readHead.steady, (readHead_plain _ i).isShallow⟩
  writeHead d := ⟨(ownSteps_confined hi).writeHead d |>.steady, (writeHead_plain hi _ ⟨2, rfl⟩ d).isShallow⟩
  noRunningChild := ⟨(ownSteps_confined hi).noRunningChild.steady, fun _ => .error nofun⟩
  missingChild := ⟨(ownSteps_confined hi).missingChild.steady, fun _ => .error nofun⟩

end Library

/-! ## The counter along a tick -/

namespace Run

variable {F : Fault → Prop} {x y : Run b α}

theorem Steady.relates_failsBy (h : x.Steady) (hF : x.FailsBy F) (n : Nat) : Relates (AtDepth n) F x x := by
  rintro w _ ⟨rfl, hn⟩
  exact ⟨rfl, ⟨rfl, (h w).trans hn⟩, hF w⟩

theorem unlessAt_exec (alarm : Run b Unit) {w : World b} (h : w.inst.depth = n) :
    (alarm.unlessAt n).exec w = (.ok (), w) := by
  have hinst : (inst : Run b (Instance b)).exec w = (.ok w.inst, w) := rfl
  rw [unlessAt, exec_bind, hinst]
  simp only [h, ne_eq, not_true_eq_false, ↓reduceIte]
  rfl

/-- No alarm sounds where a computation starts and ends at the right depth. -/
theorem watched_exec (alarm : Run b Unit) {w : World b} (h : w.inst.depth = n)
    (h' : (x.exec w).2.inst.depth = n) : (watched alarm n x).exec w = x.exec w := by
  rw [watched, exec_bind, unlessAt_exec alarm h]
  simp only [exec_bind, Machine.attempt_exec, unlessAt_exec alarm h']
  rcases x.exec w with ⟨_ | _, _⟩ <;> rfl

theorem Agrees.watched {w v : World b} {Q : Except Fault α → World b → World b → Prop} (h : x.Agrees w y v Q)
    (alarm : Run b Unit) (hn : w.inst.depth = n) (hQ : ∀ r w' v', Q r w' v' → w'.inst.depth = n) :
    (watched alarm n x).Agrees w y v Q := by
  unfold Agrees Yields at *
  rw [watched_exec alarm hn (hQ _ _ _ h.2)]
  exact h

theorem Relates.watched (alarm : Run b Unit) (h : Relates (AtDepth n) F x y) :
    Relates (AtDepth n) F (watched alarm n x) y := fun w v hwv =>
  (h w v hwv).watched alarm hwv.2 fun _ _ _ h' => h'.1.2

end Run

namespace Machine

variable {F : Fault → Prop} {x y : Run b Status}

theorem trace_plain (m : Machine) (i : Nat) (ev : NodeEvent) : (m.trace i ev : Run b Unit).Plain := fun w =>
  (m.trace_yields i ev w).mono fun _ _ h e he => by
    obtain ⟨-, err, rfl, -⟩ := h.2 e he
    trivial

theorem conclude_failsBy (hi : i < b.size) (hF : ∀ e : Fault, e.IsPlain → F e) {r : Except Fault Status}
    (hr : Checked.FailsBy F r) : (m.conclude i r : Run b Status).FailsBy F := by
  refine .ofInst fun s => .bind (.setInst _) fun _ => ?_
  cases r with
  | error e =>
      have hclear : (clearSubtree i : Run b Unit).FailsBy F := fun w =>
        (clearSubtree_yields hi).mono fun _ _ h => h.1 ▸ .ok ()
      exact hclear.bind fun _ => .lift (.error (hr e rfl))
  | ok st =>
      have hset : ∀ s : Instance b, (s.setState i st).FailsBy F := fun s => by
        obtain ⟨s', hs', -⟩ := s.setState_sets hi st
        exact hs' ▸ .ok s'
      exact (FailsBy.update hset).bind fun _ =>
        .bind (fun w e he => hF e (m.trace_plain i _ w e he)) fun _ => .pure st

theorem perform_relates (hi : i < b.size) (hF : ∀ e : Fault, e.IsPlain → F e)
    (h : Relates (AtDepth (n + 1)) F x y) : Relates (AtDepth n) F (m.perform i x) (m.perform i y) := by
  rintro w _ ⟨rfl, hn⟩
  obtain ⟨hr, ⟨hw, hdepth⟩, hfails⟩ := h { w with inst := w.inst.enter } _ ⟨rfl, congrArg (· + 1) hn⟩
  have hsame : (m.perform i y).exec w = (m.perform i x).exec w := m.perform_congr (Prod.ext hr hw.symm)
  have hleave := m.conclude_leaves i (x.exec { w with inst := w.inst.enter }).1
    (x.exec { w with inst := w.inst.enter }).2
  unfold Agrees Yields
  rw [hsame, perform_exec]
  refine ⟨rfl, ⟨rfl, ?_⟩, m.conclude_failsBy hi hF hfails _⟩
  have hdown : _ = _ - 1 := hleave
  rw [hdown, hdepth]
  rfl

namespace Shallow

variable (hm : m.Shallow)
include hm

theorem standard : m.Standard := fun id bh h => (hm id bh h).imp_right (·.toIsLeaf)

theorem reentrant : m.Reentrant := fun id bh h => (hm id bh h).imp_right fun hbh =>
  { reset := fun i w => (hbh.reset i w).mono fun _ _ hown => hown.depth
    tick := fun {b i} _ rs => by
      have hsame : (fun cb : Callbacks b => bh.tick rs cb i) =
          fun _ => bh.tick rs ⟨fun _ => pure .success, fun _ => pure ()⟩ i :=
        funext fun cb => hbh.tick_alone rs cb _ i
      rw [hsame]
      exact .own fun w => (hbh.tick rs _ i w).mono fun _ _ hown => hown.depth }

theorem reset_shallow {bh : Behavior} (hbh : m.behaviorAt b i = .ok bh) :
    (bh.reset i : Run b Unit).FailsBy Fault.IsShallow := by
  have hi := lt_of_behaviorAt hbh
  obtain ⟨id, -, hid⟩ := behaviorAt_eq_ok hbh
  rcases hm id bh hid with hlib | hhost
  · obtain ⟨x, hx, rfl⟩ := List.mem_map.mp hlib
    by_cases hp : x.2 = parallel
    · rw [hp]
      refine .update fun s => ?_
      obtain ⟨s', hs', -⟩ := s.fill_sets hi Status.running.bits
      exact hs' ▸ .ok s'
    · rw [reset_of_ne hx hp]
      exact .pure ()
  · exact hhost.reset_fails i

/-- A node is prepared at the depth at which its tick starts. -/
theorem prepare_agrees (i : Nat) {w : World b} (hn : w.inst.depth = n) :
    (m.prepare i).Agrees w (m.prepare i) w fun r w' v' => AtDepth n w' v' ∧
      Checked.FailsBy Fault.IsShallow r ∧ ∀ bh, r = .ok bh → m.behaviorAt b i = .ok bh := by
  obtain ⟨hdepth, hbh⟩ := hm.reentrant.prepare i w
  refine ⟨rfl, ⟨rfl, hdepth.trans hn⟩, ?_, hbh⟩
  have hfails : (m.prepare i : Run b Behavior).FailsBy Fault.IsShallow := by
    unfold Machine.prepare
    refine .lift_bind (fun e he => (m.behaviorAt_plain b i e he).isShallow) fun bh hbh => ?_
    have hi := lt_of_behaviorAt hbh
    refine .ofInst fun s => .lift_bind (s.state_eq hi ▸ .ok _) fun st _ => ?_
    have hactivate : (m.activate bh i : Run b Unit).FailsBy Fault.IsShallow := by
      refine FailsBy.bind (.update fun s => ?_) fun _ => (hm.reset_shallow hbh).bind fun _ =>
        (m.trace_plain i .reset).isShallow
      obtain ⟨s', hs', -⟩ := s.restore_sets hi
      exact hs' ▸ .ok s'
    split
    · exact hactivate.bind fun _ => .pure bh
    · exact .pure bh
  exact hfails w

theorem tick_relates {F : Fault → Prop} (hF : ∀ e : Fault, e.IsShallow → F e) {bh : Behavior}
    (hbh : m.behaviorAt b i = .ok bh) {cb cb' : Callbacks b}
    (htick : ∀ c ∈ b.childList i, Relates (AtDepth n) F (cb.tick c) (cb'.tick c)) :
    Relates (AtDepth n) F (bh.tick m.registries cb i) (bh.tick m.registries cb' i) := by
  have hi := lt_of_behaviorAt hbh
  have hshallow : ∀ {α : Type} {x : Run b α}, x.Steady → x.FailsBy Fault.IsShallow →
      Relates (AtDepth n) F x x := fun hx hfails => hx.relates_failsBy (fun w e he => hF e (hfails w e he)) n
  by_cases hc : bh ∈ composites
  · exact (((ownSteps_shallow hi).mono fun _ h => hshallow h.1 h.2).composite hi hc m.registries).relates htick
      fun _ => False.elim
  have hsteady : (bh.tick m.registries cb i).Steady := fun w =>
    (((hm.standard.behaviorAt hbh).isLeaf hc).tick m.registries cb i w).mono fun _ _ hown => hown.depth
  obtain ⟨id, -, hid⟩ := behaviorAt_eq_ok hbh
  rcases hm id bh hid with hlib | hhost
  · obtain ⟨x, hx, rfl⟩ := List.mem_map.mp hlib
    rcases leaf_cases hx hc with rfl | rfl
    · exact hshallow hsteady (fixed_plain m.registries cb i).isShallow
    · exact hshallow hsteady (delay_plain m.registries cb hi).isShallow
  · rw [hhost.tick_alone m.registries cb' cb]
    exact hshallow hsteady (hhost.tick_fails m.registries cb i)

end Shallow

/-- If the fault is that ticks are nested too deep, then for a node whose depth is the limit. -/
def LimitFault (m : Machine) (b : Blob) (e : Fault) : Prop := ∀ i n, e = .error (.depthExceeded i n) →
  n = m.config.maxTickDepth ∧ i < b.size ∧ b.depth i = m.config.maxTickDepth

theorem LimitFault.of_isShallow {e : Fault} (h : e.IsShallow) : m.LimitFault b e := fun i n he =>
  absurd he (h i n)

/-- By induction on the room that is left: the node at hand is as deep as the counter says. -/
theorem Shallow.tickWatched_relates (hm : m.Shallow) {ds : Nat → Nat} (hds : ∀ i < b.size, ds i = b.depth i)
    (alarm : Run b Unit) : ∀ room, ∀ i < b.size, b.depth i + room = m.config.maxTickDepth →
      Relates (AtDepth (b.depth i)) (m.LimitFault b) (m.tickWatched ds alarm room i) (m.tickWithin room i) := by
  intro room
  induction room with
  | zero =>
      intro i hi hroom
      rw [tickWatched, tickWithin, hds i hi]
      refine Relates.watched alarm ?_
      rintro w _ ⟨rfl, hn⟩
      refine (hm.prepare_agrees i hn).bind (fun bh w' v' h => ?_) fun e w' v' h => ?_
      · refine Relates.fail ?_ w' v' h.1
        rintro _ _ ⟨⟩
        exact ⟨rfl, hi, hroom⟩
      · exact ⟨h.1, .error (.of_isShallow (h.2.1 e rfl))⟩
  | succ room ih =>
      intro i hi hroom
      rw [tickWatched, tickWithin, hds i hi]
      refine Relates.watched alarm ?_
      rintro w _ ⟨rfl, hn⟩
      refine ((hm.prepare_agrees i hn).watched alarm hn fun _ _ _ h => h.1.2).bind (fun bh w' v' h => ?_)
        fun e w' v' h => ⟨h.1, .error (.of_isShallow (h.2.1 e rfl))⟩
      have hticks : ∀ c ∈ b.childList i, Relates (AtDepth (b.depth i + 1)) (m.LimitFault b)
          (watched alarm (b.depth i + 1) (m.tickWatched ds alarm room c)) (m.tickWithin room c) := by
        intro c hc
        rw [← Blob.depth_child hi hc]
        refine .watched alarm (ih c (Blob.lt_size_of_mem_childList hi hc) ?_)
        rw [Blob.depth_child hi hc]
        omega
      have hfunction : Relates (AtDepth (b.depth i + 1)) (m.LimitFault b)
          (bh.tick m.registries ⟨fun c => watched alarm (b.depth i + 1) (m.tickWatched ds alarm room c), m.reset⟩ i)
          (bh.tick m.registries ⟨m.tickWithin room, m.reset⟩ i) :=
        hm.tick_relates (fun e => .of_isShallow) (h.2.2 bh rfl) hticks
      exact perform_relates hi (fun e he => .of_isShallow he.isShallow) (hfunction.watched alarm) w' v' h.1

end Machine

/-! ## Ticks of a tree -/

instance (b : Blob) : (Contract.anything b).Forgiving := ⟨fun _ _ _ _ _ _ _ _ _ _ => trivial⟩

namespace Machine.Shallow

variable (hm : m.Shallow)
include hm

/-- Between calls no tick is open. -/
theorem depth_after (acts : List (Act × Blackboard)) (hacts : ∀ x ∈ acts, x.1.TicksRoot) :
    ((Tree.new b).after m acts).inst.depth = 0 :=
  (hm.standard.upholds_anything.after_between acts hacts Contract.between_new).depth

theorem root_relates {ds : Nat → Nat} (hds : ∀ i < b.size, ds i = b.depth i) (alarm : Run b Unit) :
    Relates (AtDepth 0) (m.LimitFault b) (m.tickWatched ds alarm m.config.maxTickDepth 0) (m.tick 0) := by
  rintro w _ ⟨rfl, hn⟩
  have htick : (m.tick 0 : Run b Status).exec w = (m.tickWithin m.config.maxTickDepth 0).exec w := by
    change (m.tickWithin (m.config.maxTickDepth - w.inst.depth) 0).exec w = _
    rw [hn, Nat.sub_zero]
  have h := hm.tickWatched_relates hds alarm m.config.maxTickDepth 0 b.size_pos
    (by rw [b.depth_root, Nat.zero_add]) w w ⟨rfl, hn⟩
  unfold Agrees Yields at *
  rw [htick]
  exact h

end Machine.Shallow

/-- The depths computed from the layout foretell the depth counter. When a tick of the root comes to a node,
the counter is at the depth of the node, and one above it while the tick function runs: no alarm that would
sound otherwise makes a difference. So a tick fails at the limit only for a node whose depth is the limit,
and never if all nodes are above it. -/
theorem depths_foretell (hm : m.Shallow) (acts : List (Act × Blackboard)) (hacts : ∀ x ∈ acts, x.1.TicksRoot)
    (bb : Blackboard) : ∃ ds, b.depths = .ok ds ∧ ds.length = b.size ∧
      let t := (Tree.new b).after m acts
      (∀ alarm : Run b Unit,
        (m.tickWatched (fun i => ds.getD i 0) alarm m.config.maxTickDepth 0).exec ⟨t.inst.advance, bb⟩ =
          (m.tick 0).exec ⟨t.inst.advance, bb⟩) ∧
      (∀ i limit, (t.tick m bb).1 = .error (.error (.depthExceeded i limit)) →
        limit = m.config.maxTickDepth ∧ ds[i]? = some m.config.maxTickDepth) ∧
      ((∀ d ∈ ds, d < m.config.maxTickDepth) →
        ∀ i limit, (t.tick m bb).1 ≠ .error (.error (.depthExceeded i limit))) := by
  have hget : ∀ i < b.size, ((List.range b.size).map b.depth)[i]? = some (b.depth i) := fun i hi => by
    rw [List.getElem?_map, List.getElem?_range hi, Option.map_some]
  have hds : ∀ i < b.size, ((List.range b.size).map b.depth).getD i 0 = b.depth i := fun i hi => by
    rw [List.getD_eq_getElem?_getD, hget i hi, Option.getD_some]
  have hdepth := hm.depth_after acts hacts (b := b)
  have hfault : ∀ i limit, (((Tree.new b).after m acts).tick m bb).1 = .error (.error (.depthExceeded i limit)) →
      limit = m.config.maxTickDepth ∧ ((List.range b.size).map b.depth)[i]? = some m.config.maxTickDepth := by
    intro i limit he
    have hfails : m.LimitFault b (.error (.depthExceeded i limit)) := by
      refine ((Tree.new b).after m acts).tick_yields (m := m) bb
        (Q := fun r _ => Checked.FailsBy (m.LimitFault b) r) ?_ _ he
      have hroot := hm.root_relates hds (pure ()) ⟨((Tree.new b).after m acts).inst.advance, bb⟩ _ ⟨rfl, hdepth⟩
      unfold Agrees Yields at *
      rw [hroot.1]
      exact hroot.2.2
    obtain ⟨hlimit, hi, hmax⟩ := hfails i limit rfl
    exact ⟨hlimit, by rw [hget i hi, hmax]⟩
  refine ⟨_, b.depths_eq, by simp, fun alarm => ?_, hfault, fun hall i limit he => ?_⟩
  · have hroot := hm.root_relates hds alarm ⟨((Tree.new b).after m acts).inst.advance, bb⟩ _ ⟨rfl, hdepth⟩
    exact (Prod.ext hroot.1 hroot.2.1.1.symm).symm
  · exact absurd (hall _ (List.mem_of_getElem? (hfault i limit he).2)) (Nat.lt_irrefl _)

theorem Machine.Shallow.ofLibrary : Machine.ofLibrary.Shallow :=
  registerLibrary_induction (fun _ _ h => by cases behavior?_empty.symm.trans h) fun _ hx =>
    .inl (List.mem_map_of_mem hx)

/-- A machine with the library and its limit at one level cannot tick the child of a sequence. -/
theorem depths_foretell_busySequence :
    let m : Machine := { Machine.ofLibrary with config := ⟨1, false⟩ }
    let t := (Tree.new .busySequence).after m [(.tick, .empty), (.reset, .empty)]
    m.Shallow ∧ (t.tick m .empty).1 = .error (.error (.depthExceeded 1 1)) ∧
      ∃ ds, Blob.busySequence.depths = .ok ds ∧ ds[1]? = some 1 ∧ ∀ alarm : Run .busySequence Unit,
        (m.tickWatched (fun i => ds.getD i 0) alarm 1 0).exec ⟨t.inst.advance, .empty⟩ =
          (m.tick 0).exec ⟨t.inst.advance, .empty⟩ := by
  intro m t
  have hm : m.Shallow := Machine.Shallow.ofLibrary
  have hfails : (t.tick m .empty).1 = .error (.error (.depthExceeded 1 1)) := by decide +kernel
  obtain ⟨ds, hds, -, hwatched, hfault, -⟩ :=
    depths_foretell hm [(.tick, .empty), (.reset, .empty)] (by decide) .empty
  exact ⟨hm, hfails, ds, hds, (hfault 1 1 hfails).2, hwatched⟩

/-- The alarm sounds if the root is not where it is expected. -/
example : ((Machine.ofLibrary.tickWatched (fun _ => 1) (Run.fail (.missingChild 0)) 1 0).exec
    ⟨Instance.new .busySequence, .empty⟩).1 = .error (.error (.missingChild 0)) := by decide +kernel

end BehaviorTree
