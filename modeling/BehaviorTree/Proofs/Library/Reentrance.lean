import BehaviorTree.Proofs.Library.Confined

/-!
# Ticks within ticks

A tick function may tick any node, also its own or one above it, so the tree does not bound how deep ticks
are nested. The depth counter does: `Machine.Evaluates` follows the ticks as the counter admits them, every
evaluation comes to an end, and the counter is back where it was.
-/

namespace BehaviorTree

open Library Run

variable {b : Blob} {m : Machine} {i : Nat} {α : Type}

/-! ## Computations that leave the counter alone -/

def Run.Steady (x : Run b α) : Prop := x.Obeys fun w w' => w'.inst.depth = w.inst.depth

theorem Run.Confined.steady {x : Run b α} (h : x.Confined i) : x.Steady := h.mono fun _ _ hf => hf.depth

namespace Run.Steady

theorem lift (c : Checked α) : (Run.lift c : Run b α).Steady :=
  Obeys.lift (Q := fun w w' => w'.inst.depth = w.inst.depth) (fun _ => rfl) c

theorem update {f : Instance b → Checked (Instance b)} (hf : Instance.Untimed f) : (Run.update f).Steady :=
  Obeys.update (Q := fun w w' => w'.inst.depth = w.inst.depth) (fun _ => rfl) fun _ _ h => (hf.counters h).2

theorem bind {β : Type} {x : Run b α} {f : α → Run b β} (hx : x.Steady) (hf : ∀ a, (f a).Steady) :
    (x >>= f).Steady := Obeys.bind (fun _ _ _ h h' => h'.trans h) hx hf

theorem lift_bind {β : Type} {c : Checked β} {f : β → Run b α} (hf : ∀ a, c = .ok a → (f a).Steady) :
    (Run.lift c >>= f).Steady := by
  cases c with
  | error e => exact lift (.error e)
  | ok a => exact hf a rfl

theorem forM {xs : List Nat} {f : Nat → Run b Unit} (h : ∀ x ∈ xs, (f x).Steady) : (xs.forM f).Steady := by
  induction xs with
  | nil => exact lift (.ok ())
  | cons x xs ih =>
      rw [List.forall_mem_cons] at h
      exact (h.1).bind fun _ => ih h.2

theorem readHead (p : PlainData α) (i : Nat) : (Run.readHead p i : Run b α).Steady := fun w =>
  (lift (w.inst.readAt p.type i 0)).bind (fun bs => lift (.ok (p.decode bs))) w

end Run.Steady

/-- The same world, with the depth counter at `n`. -/
def Run.AtDepth (n : Nat) (w v : World b) : Prop := w = v ∧ w.inst.depth = n

theorem Run.Steady.relates {x : Run b α} (h : x.Steady) (n : Nat) : Relates (AtDepth n) (fun _ => True) x x := by
  rintro w _ ⟨rfl, hn⟩
  exact ⟨rfl, ⟨rfl, (h w).trans hn⟩, fun _ _ => trivial⟩

/-- A behavior whose tick function is made of steps of its own and of ticks and resets of whatever nodes. But for
these it leaves the depth counter alone. -/
structure Behavior.IsReentrant (bh : Behavior) : Prop where
  reset : ∀ {b : Blob} (i : Nat), (bh.reset i : Run b Unit).Steady
  tick : ∀ {b : Blob} {i : Nat}, i < b.size → ∀ rs : Registries,
    MadeOf (fun x : Run b _ => x.Steady) (fun _ => True) (fun _ => True) fun cb => bh.tick rs cb i

theorem Library.isReentrant {x : TypeId × Behavior} (hx : x ∈ Library.behaviors) : x.2.IsReentrant where
  reset i := by
    by_cases hp : x.2 = parallel
    · rw [hp]
      exact .update (.fill i _)
    · rw [reset_of_ne hx hp]
      exact .lift (.ok ())
  tick {b i} hi rs := by
    by_cases hc : x.2 ∈ composites
    · exact (((ownSteps_confined hi).mono fun _ h => h.steady).composite hi hc rs).mono (fun _ h => h)
        (fun _ _ => trivial) fun _ => False.elim
    · have hleaf : ∀ {bh : Behavior}, bh.IsLeaf → (bh.tick rs ⟨fun _ => pure .success, fun _ => pure ()⟩ i :
          Run b Status).Steady := fun h w => (h.tick rs _ i w).mono fun _ _ hown => hown.depth
      rcases leaf_cases hx hc with rfl | rfl
      · exact .own (hleaf fixed_isLeaf)
      · exact .own (hleaf delay_isLeaf)

/-- The behaviors of the machine are those of the library and reentrant ones. -/
def Machine.Reentrant (m : Machine) : Prop :=
  ∀ id bh, m.behavior? id = some bh → bh ∈ Library.behaviors.map (·.2) ∨ bh.IsReentrant

namespace Machine

theorem Reentrant.behaviorAt (hm : m.Reentrant) {bh : Behavior} (hbh : m.behaviorAt b i = .ok bh) :
    bh.IsReentrant := by
  obtain ⟨id, -, hid⟩ := behaviorAt_eq_ok hbh
  rcases hm id bh hid with hlib | hhost
  · obtain ⟨x, hx, rfl⟩ := List.mem_map.mp hlib
    exact isReentrant hx
  · exact hhost

/-! ## Following the ticks -/

/-- What a tick does once its tick function has come to the outcome `r`. -/
def conclude (m : Machine) (i : Nat) (r : Except Fault Status) : Run b Status := do
  Run.setInst (← Run.inst).leave
  match r with
  | .error e =>
    Run.clearSubtree i
    throw e
  | .ok s =>
    Run.update (·.setState i s)
    m.trace i (.tick s)
    return s

/-- `F`, with the ticks and resets of `m` for those of nodes, comes from `w` to the outcome `r` in `w'`. The list
holds the values of the depth counter with which tick functions started on the way, in order. -/
inductive Evaluates (m : Machine) : {α : Type} → Ticking b α → World b → List Nat → Except Fault α →
    World b → Prop
  | own {α : Type} {x : Run b α} {w : World b} : x.Steady →
      m.Evaluates (fun _ => x) w [] (x.exec w).1 (x.exec w).2
  | attempt {α : Type} {F : Ticking b α} {w w' : World b} {ds : List Nat} {r : Except Fault α} :
      m.Evaluates F w ds r w' → m.Evaluates (fun cb => (F cb).attempt) w ds (.ok r) w'
  | bind {α β : Type} {F : Ticking b α} {G : α → Ticking b β} {w w₁ w' : World b} {ds ds' : List Nat} {a : α}
      {r : Except Fault β} : m.Evaluates F w ds (.ok a) w₁ → m.Evaluates (G a) w₁ ds' r w' →
      m.Evaluates (fun cb => F cb >>= fun a => G a cb) w (ds ++ ds') r w'
  | failed {α β : Type} {F : Ticking b α} {G : α → Ticking b β} {w w' : World b} {ds : List Nat} {e : Fault} :
      m.Evaluates F w ds (.error e) w' →
      m.Evaluates (fun cb => F cb >>= fun a => G a cb) w ds (.error e) w'
  | reset {i : Nat} {w : World b} :
      m.Evaluates (fun cb => cb.reset i) w [] ((m.reset i).exec w).1 ((m.reset i).exec w).2
  | unprepared {i : Nat} {w w' : World b} {e : Fault} : (m.prepare i).exec w = (.error e, w') →
      m.Evaluates (fun cb => cb.tick i) w [] (.error e) w'
  | tooDeep {i : Nat} {w w₁ : World b} {bh : Behavior} : (m.prepare i).exec w = (.ok bh, w₁) →
      m.config.maxTickDepth < w₁.inst.enter.depth →
      m.Evaluates (fun cb => cb.tick i) w [] (.error (.error (.depthExceeded i m.config.maxTickDepth)))
        { w₁ with inst := w₁.inst.enter.leave }
  | ticked {i : Nat} {w w₁ w₂ : World b} {bh : Behavior} {ds : List Nat} {r : Except Fault Status} :
      (m.prepare i).exec w = (.ok bh, w₁) → w₁.inst.enter.depth ≤ m.config.maxTickDepth →
      m.Evaluates (fun cb => bh.tick m.registries cb i) { w₁ with inst := w₁.inst.enter } ds r w₂ →
      m.Evaluates (fun cb => cb.tick i) w (w₁.inst.enter.depth :: ds) ((m.conclude i r).exec w₂).1
        ((m.conclude i r).exec w₂).2

/-- The machine, as its tick functions call it back. -/
def callbacks (m : Machine) : Callbacks b := ⟨m.tick, m.reset⟩

theorem perform_eq (m : Machine) (i : Nat) (x : Run b Status) : m.perform i x = (do
    Run.setInst (← Run.inst).enter
    let r ← x.attempt
    m.conclude i r) := rfl

/-! ## The counter -/

theorem trace_steady (m : Machine) (i : Nat) (ev : NodeEvent) : (m.trace i ev : Run b Unit).Steady := fun w =>
  (m.trace_yields i ev w).mono fun _ _ h => congrArg Instance.depth h.1

theorem conclude_leaves (m : Machine) (i : Nat) (r : Except Fault Status) :
    (m.conclude i r : Run b Status).Obeys fun w w' => w'.inst.depth = w.inst.depth - 1 := by
  intro w
  cases r with
  | error e =>
      have h : (clearSubtree i >>= fun _ => throw e : Run b Status).Steady :=
        ((Steady.lift (b.endOf i)).bind fun stop => .update (.clearStates i stop)).bind fun _ => .lift (.error e)
      exact h { w with inst := w.inst.leave }
  | ok s =>
      have h : (Run.update (·.setState i s) >>= fun _ => m.trace i (.tick s) >>= fun _ => pure s :
          Run b Status).Steady :=
        (Steady.update (.setState i s)).bind fun _ => (m.trace_steady i _).bind fun _ => .lift (.ok s)
      exact h { w with inst := w.inst.leave }

theorem attempt_exec (x : Run b α) (w : World b) : x.attempt.exec w = (.ok (x.exec w).1, (x.exec w).2) := rfl

theorem perform_exec (m : Machine) (i : Nat) (x : Run b Status) (w : World b) : (m.perform i x).exec w =
    (m.conclude i (x.exec { w with inst := w.inst.enter }).1).exec (x.exec { w with inst := w.inst.enter }).2 :=
  rfl

theorem perform_steady {x : Run b Status} (hx : x.Steady) : (m.perform i x).Steady := by
  intro w
  rw [perform_eq]
  simp only [yields_bind, yields_inst, yields_setInst, yields_attempt]
  refine (hx { w with inst := w.inst.enter }).mono fun r w₁ h => ?_
  refine (m.conclude_leaves i r w₁).mono fun _ w' h' => ?_
  rw [h', h]
  rfl

section

variable (hm : m.Reentrant)
include hm

theorem Reentrant.prepare (i : Nat) (w : World b) : (m.prepare i).Yields w fun r w' =>
    w'.inst.depth = w.inst.depth ∧ ∀ bh, r = .ok bh → m.behaviorAt b i = .ok bh := by
  unfold Machine.prepare
  rw [yields_bind, yields_lift]
  cases hbh : m.behaviorAt b i with
  | error e => exact ⟨rfl, nofun⟩
  | ok bh =>
      have hactivate : (m.activate bh i : Run b Unit).Steady := (Steady.update (.restore i)).bind fun _ =>
        ((hm.behaviorAt hbh).reset i).bind fun _ => m.trace_steady i .reset
      simp only [yields_bind (x := inst), yields_inst, yields_bind (x := Run.lift _), yields_lift]
      cases w.inst.state i with
      | error e => exact ⟨trivial, nofun⟩
      | ok st =>
          simp only []
          split
          · rw [yields_bind]
            refine (hactivate w).mono fun r w' h => ?_
            cases r with
            | error e => exact ⟨h, nofun⟩
            | ok u => exact ⟨h, fun _ he => he⟩
          · exact ⟨rfl, fun _ he => he⟩

theorem Reentrant.prepare_exec {w w₁ : World b} {r : Except Fault Behavior}
    (h : (m.prepare i).exec w = (r, w₁)) : w₁.inst.depth = w.inst.depth ∧
      ∀ bh, r = .ok bh → m.behaviorAt b i = .ok bh := by
  have hprep := hm.prepare i w
  unfold Yields at hprep
  rw [h] at hprep
  exact hprep

theorem Reentrant.prepare_bind {f : Behavior → Run b α} (hf : ∀ bh, m.behaviorAt b i = .ok bh → (f bh).Steady) :
    (m.prepare i >>= f).Steady := fun w =>
  (hm.prepare i w).bind (fun bh w' h => (hf bh (h.2 bh rfl) w').mono fun _ _ h' => h'.trans h.1)
    fun _ _ h => h.1

theorem Reentrant.resetNode (i : Nat) : (m.resetNode i : Run b Unit).Steady :=
  .lift_bind fun _ hbh => (hm.behaviorAt hbh).reset i

theorem Reentrant.reset (i : Nat) : (m.reset i : Run b Unit).Steady :=
  .lift_bind fun _ _ => (Steady.update (.resetSubtree i)).bind fun _ => (Steady.lift (b.endOf i)).bind fun _ =>
    (Steady.forM fun j _ => hm.resetNode j).bind fun _ => m.trace_steady i .reset

theorem Reentrant.tickWithin : ∀ room i, (m.tickWithin room i : Run b Status).Steady
  | 0, _ => hm.prepare_bind fun _ _ => .lift (.error _)
  | room + 1, _ => hm.prepare_bind fun _ hbh => perform_steady <|
      ((hm.behaviorAt hbh).tick (lt_of_behaviorAt hbh) m.registries).obeys (fun _ _ _ h h' => h'.trans h)
        (fun c _ => Reentrant.tickWithin room c) fun c _ => hm.reset c

/-- Where the counter leaves room for `room` more levels, a tick is one with this bound. -/
theorem Reentrant.tick_relates {n room : Nat} (h : n + room = m.config.maxTickDepth) (c : Nat) :
    Relates (AtDepth n) (fun _ => True) (m.tick c : Run b Status) (m.tickWithin room c) := by
  rintro w _ ⟨rfl, hn⟩
  have hexec : (m.tick c).exec w = (m.tickWithin room c).exec w := by
    rw [← show m.config.maxTickDepth - w.inst.depth = room by omega]
    rfl
  have hsteady := (hm.tickWithin room c).relates n w w ⟨rfl, hn⟩
  unfold Agrees Yields at *
  rw [hexec]
  exact hsteady

/-- A tick in terms of ticks: the node is prepared, and its tick function runs if the counter admits it. -/
theorem Reentrant.tick_exec (i : Nat) (w : World b) : (m.tick i).exec w =
    match (m.prepare i).exec w with
    | (.error e, w₁) => (.error e, w₁)
    | (.ok bh, w₁) =>
      if w₁.inst.enter.depth ≤ m.config.maxTickDepth then (m.perform i (bh.tick m.registries m.callbacks i)).exec w₁
      else (.error (.error (.depthExceeded i m.config.maxTickDepth)), w₁) := by
  have htick : (m.tick i).exec w = (m.tickWithin (m.config.maxTickDepth - w.inst.depth) i).exec w := rfl
  rw [htick]
  rcases hexec : (m.prepare i).exec w with ⟨r, w₁⟩
  have hprep := hm.prepare_exec hexec
  cases hroom : m.config.maxTickDepth - w.inst.depth with
  | zero =>
      rw [Machine.tickWithin, exec_bind, hexec]
      cases r with
      | error e => rfl
      | ok bh =>
          have hdepth : ¬ w₁.inst.enter.depth ≤ m.config.maxTickDepth := by
            change ¬ w₁.inst.depth + 1 ≤ _
            rw [hprep.1]
            omega
          simp only [if_neg hdepth]
          rfl
  | succ room =>
      rw [Machine.tickWithin, exec_bind, hexec]
      cases r with
      | error e => rfl
      | ok bh =>
          have hbh := hprep.2 bh rfl
          have hdepth : w₁.inst.enter.depth + room = m.config.maxTickDepth := by
            change w₁.inst.depth + 1 + room = _
            rw [hprep.1]
            omega
          have hmade := ((hm.behaviorAt hbh).tick (lt_of_behaviorAt hbh) m.registries).mono
            (fun _ hx => hx.relates w₁.inst.enter.depth) (fun _ h => h) fun _ h => h
          have hfunction : Relates (AtDepth w₁.inst.enter.depth) (fun _ => True)
              (bh.tick m.registries m.callbacks i) (bh.tick m.registries ⟨m.tickWithin room, m.reset⟩ i) :=
            hmade.relates (fun c _ => hm.tick_relates hdepth c) fun c _ => (hm.reset c).relates _
          obtain ⟨hr, ⟨hw, -⟩, -⟩ := hfunction { w₁ with inst := w₁.inst.enter } _ ⟨rfl, rfl⟩
          simp only [if_pos (show w₁.inst.enter.depth ≤ m.config.maxTickDepth by omega)]
          exact m.perform_congr (Prod.ext hr hw.symm)

/-! ## Evaluations -/

/-- What an evaluation comes to is what the computation does. -/
theorem Evaluates.exec {F : Ticking b α} {w w' : World b} {ds : List Nat} {r : Except Fault α}
    (h : m.Evaluates F w ds r w') : (F m.callbacks).exec w = (r, w') := by
  induction h with
  | own _ => rfl
  | attempt _ ih => rw [attempt_exec, ih]
  | bind _ _ ihF ihG =>
      rw [exec_bind, ihF]
      exact ihG
  | failed _ ih => rw [exec_bind, ih]
  | reset => rfl
  | unprepared hprep => rw [callbacks, hm.tick_exec, hprep]
  | tooDeep hprep hdeep =>
      rw [callbacks, hm.tick_exec, hprep]
      exact if_neg (Nat.not_le.mpr hdeep)
  | ticked hprep hle _ ih =>
      rw [callbacks, hm.tick_exec, hprep]
      simp only [if_pos hle, perform_exec, ih]

/-- An evaluation balances the counter. The tick functions in it start above the level it started at and
within the limit. -/
theorem Evaluates.depth {F : Ticking b α} {w w' : World b} {ds : List Nat} {r : Except Fault α}
    (h : m.Evaluates F w ds r w') : w'.inst.depth = w.inst.depth ∧
      ∀ d ∈ ds, w.inst.depth < d ∧ d ≤ m.config.maxTickDepth := by
  induction h with
  | own hx => exact ⟨hx _, nofun⟩
  | attempt _ ih => exact ih
  | bind _ _ ihF ihG =>
      refine ⟨ihG.1.trans ihF.1, fun d hd => ?_⟩
      rcases List.mem_append.mp hd with hd | hd
      · exact ihF.2 d hd
      · rw [← ihF.1]
        exact ihG.2 d hd
  | failed _ ih => exact ih
  | reset => exact ⟨hm.reset _ _, nofun⟩
  | unprepared hprep => exact ⟨(hm.prepare_exec hprep).1, nofun⟩
  | tooDeep hprep _ => exact ⟨(hm.prepare_exec hprep).1, nofun⟩
  | @ticked i w w₁ w₂ _ ds r hprep hle _ ih =>
      have hsame : w₁.inst.depth = w.inst.depth := (hm.prepare_exec hprep).1
      have hup : w₁.inst.enter.depth = w.inst.depth + 1 := congrArg Nat.succ hsame
      have hdown := m.conclude_leaves i r w₂
      refine ⟨?_, List.forall_mem_cons.mpr ⟨⟨by omega, hle⟩, fun d hd => ?_⟩⟩
      · have h : w₂.inst.depth = w₁.inst.enter.depth := ih.1
        exact hdown.trans (by rw [h, hup]; rfl)
      · have h : w₁.inst.enter.depth < d ∧ d ≤ m.config.maxTickDepth := ih.2 d hd
        exact ⟨by omega, h.2⟩

theorem evaluates_of_madeOf {J K : Nat → Prop} {F : Ticking b α} (hF : MadeOf (fun x => x.Steady) J K F) {n : Nat}
    (htick : ∀ c, J c → ∀ w : World b, w.inst.depth = n →
      ∃ ds r w', m.Evaluates (fun cb => cb.tick c) w ds r w') :
    ∀ w : World b, w.inst.depth = n → ∃ ds r w', m.Evaluates F w ds r w' := by
  induction hF with
  | own hx => exact fun w _ => ⟨_, _, _, .own hx⟩
  | tick hc => exact htick _ hc
  | reset _ => exact fun w _ => ⟨_, _, _, .reset⟩
  | attempt _ ih =>
      intro w hw
      obtain ⟨ds, r, w', h⟩ := ih w hw
      exact ⟨ds, .ok r, w', .attempt h⟩
  | bind _ _ ihF ihG =>
      intro w hw
      obtain ⟨ds, r, w₁, h⟩ := ihF w hw
      cases r with
      | error e => exact ⟨ds, .error e, w₁, .failed h⟩
      | ok a =>
          obtain ⟨ds', r, w', h'⟩ := ihG a w₁ ((h.depth hm).1.trans hw)
          exact ⟨ds ++ ds', r, w', .bind h h'⟩

/-- The distance of the counter from its limit bounds how deep ticks are nested. -/
theorem exists_evaluates (room i : Nat) (w : World b) (hroom : m.config.maxTickDepth ≤ w.inst.depth + room) :
    ∃ ds r w', m.Evaluates (fun cb => cb.tick i) w ds r w' := by
  induction room generalizing i w with
  | zero =>
      rcases hprep : (m.prepare i).exec w with ⟨_ | bh, w₁⟩
      · exact ⟨_, _, _, .unprepared hprep⟩
      · refine ⟨_, _, _, .tooDeep hprep ?_⟩
        have hsame := (hm.prepare_exec hprep).1
        change _ < w₁.inst.depth + 1
        omega
  | succ room ih =>
      rcases hprep : (m.prepare i).exec w with ⟨_ | bh, w₁⟩
      · exact ⟨_, _, _, .unprepared hprep⟩
      · rcases Nat.lt_or_ge m.config.maxTickDepth w₁.inst.enter.depth with hdeep | hle
        · exact ⟨_, _, _, .tooDeep hprep hdeep⟩
        · obtain ⟨hsame, hbh⟩ := hm.prepare_exec hprep
          have hup : w₁.inst.enter.depth = w.inst.depth + 1 := congrArg Nat.succ hsame
          have hmade := (hm.behaviorAt (hbh bh rfl)).tick (lt_of_behaviorAt (hbh bh rfl)) m.registries
          have hticks : ∀ c, True → ∀ v : World b, v.inst.depth = w₁.inst.enter.depth →
              ∃ ds r w', m.Evaluates (fun cb => cb.tick c) v ds r w' := fun c _ v hv => ih c v (by omega)
          obtain ⟨ds, r, w₂, h⟩ := evaluates_of_madeOf hm hmade hticks { w₁ with inst := w₁.inst.enter } rfl
          exact ⟨_, _, _, .ticked hprep hle h⟩

/-- Every tick ends, also where tick functions tick their own node or nodes above it. On the way tick
functions start with the counter within its limit only, and afterwards the counter is back where it was,
whatever the outcome. At the limit no tick function starts, and the tick fails. -/
theorem tick_terminates (i : Nat) (w : World b) :
    (∃ ds r w', m.Evaluates (fun cb => cb.tick i) w ds r w') ∧
    ∀ ds r w', m.Evaluates (fun cb => cb.tick i) w ds r w' → (m.tick i).exec w = (r, w') ∧
      (∀ d ∈ ds, d ≤ m.config.maxTickDepth) ∧ w'.inst.depth = w.inst.depth ∧
      (m.config.maxTickDepth ≤ w.inst.depth → ds = [] ∧ ∃ e, r = .error e) := by
  refine ⟨exists_evaluates hm (m.config.maxTickDepth - w.inst.depth) i w (by omega), fun ds r w' h => ?_⟩
  have hexec : (m.tick i).exec w = (r, w') := h.exec hm
  obtain ⟨hdepth, hds⟩ := h.depth hm
  refine ⟨hexec, fun d hd => (hds d hd).2, hdepth, fun hle => ⟨?_, ?_⟩⟩
  · refine List.eq_nil_iff_forall_not_mem.mpr fun d hd => ?_
    have := hds d hd
    omega
  · rw [hm.tick_exec] at hexec
    rcases hprep : (m.prepare i).exec w with ⟨e | bh, w₁⟩
    · rw [hprep] at hexec
      exact ⟨e, (Prod.ext_iff.mp hexec).1.symm⟩
    · have hdeep : ¬ w₁.inst.enter.depth ≤ m.config.maxTickDepth := by
        have hsame := (hm.prepare_exec hprep).1
        change ¬ w₁.inst.depth + 1 ≤ _
        omega
      rw [hprep] at hexec
      simp only [if_neg hdeep] at hexec
      exact ⟨_, (Prod.ext_iff.mp hexec).1.symm⟩

end

end Machine

/-! ## A jump -/

/-- A behavior that ticks the node whose index is its data. -/
def Behavior.jump : Behavior where
  name := "Jump"
  reset := Behavior.noReset
  tick _ cb i := do
    let target ← Run.readHead .u32 i
    cb.tick target.toNat
  access := none

theorem Behavior.jump_isReentrant : jump.IsReentrant where
  reset _ := .lift (.ok ())
  tick _ _ := .bind (.own (.readHead .u32 _)) fun _ => .tick trivial

/-- A machine that knows jumps and nests two ticks at most. -/
def Machine.jumping : Machine :=
  { (Machine.empty.registerAll ((⟨16⟩, .jump) :: Library.behaviors)).1 with config := ⟨2, false⟩ }

theorem Machine.jumping_reentrant : jumping.Reentrant := by
  have hall : ∀ x ∈ (⟨16⟩, Behavior.jump) :: Library.behaviors,
      x.2 ∈ Library.behaviors.map (·.2) ∨ x.2.IsReentrant :=
    List.forall_mem_cons.mpr ⟨.inr Behavior.jump_isReentrant, fun _ hx => .inl (List.mem_map_of_mem hx)⟩
  exact registerAll_induction (P := fun bh => bh ∈ Library.behaviors.map (·.2) ∨ bh.IsReentrant)
    (fun _ _ h => by cases behavior?_empty.symm.trans h) hall

/-- A node that jumps to itself. -/
def Blob.selfJump : Blob := ⟨⟨#[⟨16⟩], #[1], #[0], #[4], #[0]⟩, by decide⟩

theorem Machine.tick_terminates_selfJump : jumping.Reentrant ∧
    ∃ ds r w', jumping.Evaluates (fun cb => cb.tick 0) ⟨Instance.new .selfJump, .empty⟩ ds r w' ∧
      r = .error (.error (.depthExceeded 0 2)) ∧ w'.inst.depth = 0 := by
  obtain ⟨⟨ds, r, w', h⟩, hall⟩ := tick_terminates jumping_reentrant 0 ⟨Instance.new .selfJump, .empty⟩
  obtain ⟨hexec, -, hdepth, -⟩ := hall ds r w' h
  refine ⟨jumping_reentrant, ds, r, w', h, ?_, hdepth⟩
  exact (congrArg Prod.fst hexec).symm.trans (by decide +kernel)

end BehaviorTree
