import Mathlib.Data.List.Induction
import BehaviorTree.Proofs.Trace.TickTrace

/-!
# The log of a run

In a run the log is handed from call to call. What a call adds to the history of a node depends on whether the
node is running before it: a node that is not is reset before it is ticked, and a node that is running is
ticked without, unless the call itself resets it.
-/

namespace BehaviorTree

open Run

variable {b : Blob} {m : Machine}

/-- The call restores node `x` and says so. -/
def Act.Resets (x : Nat) : Act → Prop
  | reset => x = 0
  | resetAt i => x = i
  | _ => False

/-! ## What a call tells of a node -/

/-- What a call may add to the history of a node that is running before it (`run`) and after it (`run'`), or
not. If the call fails (not `ok`) the node may be inactive despite its result. Only a call that is made to
reset the node (`own`) resets it while it is running. -/
inductive Stretch (own ok run run' : Prop) : List NodeEvent → Prop
  | silent (hr' : run' → run) : Stretch own ok run run' []
  | activated (hr : ¬ run ∨ own) (hr' : ¬ run') : Stretch own ok run run' [.reset]
  | resumed (st : Status) (hr : run) (hr' : run' → st = .running) (hok : ok → st = .running → run') :
      Stretch own ok run run' [.tick st]
  | entered (st : Status) (hr : ¬ run) (hr' : run' → st = .running) (hok : ok → st = .running → run') :
      Stretch own ok run run' [.reset, .tick st]

section

variable {own ok ok' whole run run' : Prop} {c c' : Cell} {h : List NodeEvent}

theorem Stretch.mono (hs : Stretch own ok run run' h) (hok : ok' → ok) : Stretch own ok' run run' h := by
  cases hs with
  | silent hr' => exact .silent hr'
  | activated hr hr' => exact .activated hr hr'
  | resumed st hr hr' h => exact .resumed st hr hr' fun ho => h (hok ho)
  | entered st hr hr' h => exact .entered st hr hr' fun ho => h (hok ho)

/-- An event that a call adds, with those that it adds before and after. -/
theorem Stretch.at {e : NodeEvent} {j post : List NodeEvent} (hs : Stretch own ok run run' (j ++ e :: post)) :
    (e = .reset ∧ j = [] ∧ (¬ run ∨ own)) ∨ ∃ st, e = .tick st ∧ post = [] ∧
      (ok → st = .running → run') ∧ (j = [] ∧ run ∨ j = [.reset]) := by
  generalize hk : j ++ e :: post = k at hs
  cases hs with
  | silent => simp at hk
  | activated hr =>
      obtain ⟨rfl, rfl, -⟩ : j = [] ∧ e = .reset ∧ post = [] := by simpa [List.append_eq_singleton_iff] using hk
      exact Or.inl ⟨rfl, rfl, hr⟩
  | resumed st hr _ hok =>
      obtain ⟨rfl, rfl, rfl⟩ : j = [] ∧ e = .tick st ∧ post = [] := by
        simpa [List.append_eq_singleton_iff] using hk
      exact Or.inr ⟨st, rfl, rfl, hok, Or.inl ⟨rfl, hr⟩⟩
  | entered st hr _ hok =>
      cases j with
      | nil =>
          obtain ⟨rfl, -⟩ : e = .reset ∧ post = [.tick st] := by simpa using hk
          exact Or.inl ⟨rfl, rfl, Or.inl hr⟩
      | cons ev j =>
          obtain ⟨rfl, rfl, rfl, rfl⟩ : ev = .reset ∧ j = [] ∧ e = .tick st ∧ post = [] := by
            simpa [List.append_eq_singleton_iff] using hk
          exact Or.inr ⟨st, rfl, rfl, hok, Or.inr rfl⟩

theorem Episode.stretch (he : Episode whole c c' h) :
    Stretch own whole (c.state = some .running) (c'.state = some .running) h := by
  have hresult : ∀ {st : Status}, c'.state = some st ∨ c'.state = none → c'.state = some .running → st = .running := by
    intro st hs hr
    rcases hs with hs | hs
    · exact Option.some.inj (hs.symm.trans hr)
    · cases hs.symm.trans hr
  cases he with
  | skipped hs =>
      refine .silent fun hr => ?_
      rcases hs with hs | hs
      · exact hs.symm.trans hr
      · cases hs.symm.trans hr
  | activated hc hc' => exact .activated (Or.inl hc) hc'
  | resumed st hc hs hw => exact .resumed st hc (hresult hs) fun ho hst => hst ▸ hw ho
  | entered st hc hs hw => exact .entered st hc (hresult hs) fun ho hst => hst ▸ hw ho

end

/-- What a call that is made to reset the nodes in `own` adds to the log. -/
def Tells {α : Type} (own : Nat → Prop) (w : World b) (r : Except Fault α) (w' : World b) : Prop :=
  ∃ evs, w.board.Records w'.board evs ∧ ∀ x,
    Stretch (own x) (∃ a, r = .ok a) (w.inst.Running x) (w'.inst.Running x) (history x evs)

namespace Tells

variable {α β : Type} {own : Nat → Prop} {w w' : World b} {r : Except Fault α} {r' : Except Fault β}

/-- Nothing is told, and no node starts to run. -/
theorem silent (hlog : w.board.Logging) (hspare : w.board.SparesTrace w'.board)
    (hr : ∀ x, w'.inst.Running x → w.inst.Running x) : Tells own w r w' :=
  ⟨[], .of_spares hspare hlog, fun x => .silent (hr x)⟩

theorem congr (h : Tells own w r w') (hok : (∃ a, r' = .ok a) → ∃ a, r = .ok a) : Tells own w r' w' := by
  obtain ⟨evs, hrec, hs⟩ := h
  exact ⟨evs, hrec, fun x => (hs x).mono hok⟩

theorem map (h : Tells own w r w') (f : α → β) : Tells own w (r.map f) w' := h.congr fun ⟨_, ha⟩ => by
  cases r with
  | error e => cases ha
  | ok a => exact ⟨a, rfl⟩

theorem answer {x : Run b α} (a : β) (h : x.Yields w (Tells own w)) :
    (x >>= fun _ => pure a).Yields w (Tells own w) :=
  h.bind (fun u _ hu => hu.congr fun _ => ⟨u, rfl⟩) fun _ _ he => he.congr nofun

end Tells

namespace Machine

theorem resetNodes_spares (hm : m.Discreet) : ∀ (is : List Nat) (w : World b),
    (is.forM (m.resetNode (b := b))).Yields w fun _ w' => w.board.SparesTrace w'.board
  | [], w => .refl w.board
  | i :: is, w => by
      rw [List.forM_eq_forM, List.forM_cons]
      have hnode : (m.resetNode i).Yields w fun _ w' => w.board.SparesTrace w'.board := by
        rw [resetNode, yields_bind, yields_lift]
        cases hbh : m.behaviorAt b i with
        | error e => exact .refl w.board
        | ok bh => exact hm.reset_spares hbh w
      refine hnode.bind (fun _ w₁ h₁ => ?_) fun _ _ h => h
      exact (resetNodes_spares hm is w₁).mono fun _ _ h₂ => h₁.trans h₂

theorem reset_tells (hm : m.Discreet) (htrace : m.config.trace = true) (i : Nat) (w : World b)
    (hlog : w.board.Logging) : (m.reset i).Yields w (Tells (· = i) w) := by
  have hup : (hm.contract b).Upheld m := (Typing.any b hm.standard).upheld
  unfold reset
  simp only [yields_bind, yields_lift]
  cases hbh : m.behaviorAt b i with
  | error e => exact .silent hlog (.refl _) fun _ h => h
  | ok bh =>
      have hi := lt_of_behaviorAt hbh
      obtain ⟨s₁, hs₁, hnew⟩ := Instance.resetSubtree_renews w.inst hi
      have hlt := Blob.lt_stop hi
      simp only [yields_update, hs₁, Blob.endOf_eq hi]
      refine ((hup.resetNodes (Blob.stop_le hi) (b.stop i - i) i (by omega) ⟨s₁, w.board⟩
        fun j hj => hnew.inside j hj.1 hj.2).and (resetNodes_spares hm _ ⟨s₁, w.board⟩)).mono ?_
      rintro r w₂ ⟨⟨hf, hin, -⟩, hspare⟩
      have hquiet : ∀ x, Within i (b.stop i) x → ¬ w₂.inst.Running x := fun x hx => (hin x hx).1
      have hrun : ∀ x, w₂.inst.Running x → w.inst.Running x := fun x => (hnew.frame.trans hf).running_of hquiet
      cases r with
      | error e => exact .silent hlog hspare hrun
      | ok u =>
          have hrec := Blackboard.Records.of_spares hspare hlog
          refine (trace_records htrace i .reset w₂ hrec.logging).mono ?_
          rintro r w₃ ⟨hinst, hrec₃⟩
          refine ⟨_, hrec.trans hrec₃, fun x => ?_⟩
          rw [hinst, List.nil_append]
          by_cases hx : x = i
          · subst hx
            rw [history_self]
            exact .activated (Or.inr rfl) (hquiet x ⟨Nat.le_refl x, hlt⟩)
          · rw [history_eq_nil fun e he => List.mem_singleton.mp he ▸ Ne.symm hx]
            exact .silent (hrun x)

end Machine

/-- What a call tells. -/
theorem Tree.call_tells (hm : m.Discreet) (htrace : m.config.trace = true) {t : Tree b}
    (ht : (hm.contract b).Between t) {bb : Blackboard} (hlog : bb.Logging) {a : Act} (ha : a.TicksRoot) :
    Tells a.Resets ⟨t.inst, bb⟩ (t.call m bb a).1 ⟨(t.call m bb a).2.1.inst, (t.call m bb a).2.2⟩ := by
  cases a with
  | tick =>
      obtain ⟨hf, evs, hrec, hacc⟩ := Tree.tick_told hm htrace ht hlog
      have htick : Tells (Act.tick.Resets) ⟨t.inst, bb⟩ (t.tick m bb).1
          ⟨(t.tick m bb).2.1.inst, (t.tick m bb).2.2⟩ := ⟨evs, hrec, fun x => (hacc.all hf x).stretch⟩
      exact htick.map some
  | reset =>
      have hreset := Tree.run_yields ({ t with last := none } : Tree b) bb
        (Machine.reset_tells hm htrace 0 ⟨t.inst, bb⟩ hlog)
      exact hreset.map fun _ => none
  | tickAt i => exact ha.elim
  | resetAt i => exact t.run_yields bb (.answer none (Machine.reset_tells hm htrace i _ hlog))
  | abortAt i =>
      refine t.run_yields bb (.answer none ?_)
      unfold Machine.abort
      split
      · exact .silent hlog (.refl _) fun _ h => h
      · rename_i hi
        refine (clearSubtree_yields (Nat.lt_of_not_le hi)).mono ?_
        rintro r w' ⟨-, hclear, hboard⟩
        exact .silent hlog (hboard ▸ .refl _) fun x => hclear.frame.running_of fun j hj => hclear.not_running hj
  | restoreAt i =>
      refine t.run_yields bb (.answer none ?_)
      rw [yields_update]
      rcases Nat.lt_or_ge i b.size with hi | hi
      · obtain ⟨s', hs', hnew⟩ := Instance.resetSubtree_renews t.inst hi
        rw [hs']
        exact .silent hlog (.refl _) fun x => hnew.frame.running_of fun j hj => hnew.not_running hj
      · rw [t.inst.resetSubtree_of_le hi]
        exact .silent hlog (.refl _) fun _ h => h
  | restoreAll =>
      refine t.run_yields bb (.answer none ?_)
      rw [yields_update]
      exact .silent hlog (.refl _) fun x hr => absurd hr (Instance.not_running_new x)

/-! ## What a run tells of a node -/

namespace Tree

/-- Makes a call on a blackboard with the log `l`. -/
def logCall (m : Machine) (t : Tree b) (l : TraceLog) (a : Act) (bb : Blackboard) :
    Except Fault (Option Status) × Tree b × TraceLog :=
  let (r, t, bb) := t.call m (bb.set .log Blackboard.traceLog l) a
  (r, t, (bb.get .log Blackboard.traceLog).toOption.getD l)

/-- A run from a new tree and an empty log, each call with the log that the calls before it left. -/
def logged (b : Blob) (m : Machine) (acts : List (Act × Blackboard)) : Tree b × TraceLog :=
  acts.foldl (fun s x => (s.1.logCall m s.2 x.1 x.2).2) (new b, .empty)

/-- The answer of a call after a run. -/
def answer (b : Blob) (m : Machine) (acts : List (Act × Blackboard)) (a : Act) (bb : Blackboard) :
    Except Fault (Option Status) :=
  ((logged b m acts).1.logCall m (logged b m acts).2 a bb).1

/-- The events of node `x` in the log of a run. -/
def story (b : Blob) (m : Machine) (acts : List (Act × Blackboard)) (x : Nat) : List NodeEvent :=
  history x (logged b m acts).2.events

/-- The order of what a run tells of node `x`. A result comes after a reset, or after a result that left the
node running, and while the node is running its last result says so. Where a reset comes after such a
result, a call `a` told the result and a later call `a'` the reset. After `a` the node is running unless `a`
failed, and before `a'` it is not unless `a'` is a request to reset it. -/
structure Disciplined (b : Blob) (m : Machine) (acts : List (Act × Blackboard)) (x : Nat) : Prop where
  starts : ∀ e ∈ (story b m acts x).head?, e = .reset
  ticked : ∀ pre e st post, story b m acts x = pre ++ e :: .tick st :: post → e = .reset ∨ e = .tick .running
  current : (logged b m acts).1.inst.Running x → (story b m acts x).getLast? = some (.tick .running)
  cleared : ∀ pre post, story b m acts x = pre ++ .tick .running :: .reset :: post →
    ∃ first a bb mid a' bb' last, acts = (first ++ (a, bb) :: mid) ++ (a', bb') :: last ∧
      story b m first x <+: pre ∧ story b m (first ++ [(a, bb)]) x = pre ++ [.tick .running] ∧
      story b m (first ++ (a, bb) :: mid) x = pre ++ [.tick .running] ∧
      pre ++ [.tick .running, .reset] <+: story b m (first ++ (a, bb) :: mid ++ [(a', bb')]) x ∧
      ((∃ r, answer b m first a bb = .ok r) → (logged b m (first ++ [(a, bb)])).1.inst.Running x) ∧
      (a'.Resets x ∨ ¬ (logged b m (first ++ (a, bb) :: mid)).1.inst.Running x)

theorem logged_snoc (acts : List (Act × Blackboard)) (a : Act) (bb : Blackboard) : logged b m (acts ++ [(a, bb)]) =
    ((logged b m acts).1.logCall m (logged b m acts).2 a bb).2 := by
  simp [logged]

end Tree

section Runs

variable (hm : m.Discreet) (htrace : m.config.trace = true) {acts : List (Act × Blackboard)}
  {a : Act} {bb : Blackboard} {x : Nat}

include hm

theorem Tree.logged_between (hacts : ∀ x ∈ acts, x.1.TicksRoot) :
    (hm.contract b).Between (Tree.logged b m acts).1 := by
  have hup : (hm.contract b).Upheld m := (Typing.any b hm.standard).upheld
  induction acts using List.reverseRecOn with
  | nil => exact Contract.between_new
  | append_singleton acts last ih =>
      rw [List.forall_mem_append] at hacts
      rw [logged_snoc]
      exact (hup.call_between (ih hacts.1) (hacts.2 last List.mem_cons_self) _).1

include htrace

/-- A call adds to what is told of a node. -/
theorem Tree.story_snoc (hacts : ∀ x ∈ acts, x.1.TicksRoot) (ha : a.TicksRoot) (bb : Blackboard) (x : Nat) : ∃ k,
    Tree.story b m (acts ++ [(a, bb)]) x = Tree.story b m acts x ++ k ∧
    Stretch (a.Resets x) (∃ r, Tree.answer b m acts a bb = .ok r) ((Tree.logged b m acts).1.inst.Running x)
      ((Tree.logged b m (acts ++ [(a, bb)])).1.inst.Running x) k := by
  have hget := Blackboard.get_set bb .log Blackboard.traceLog (Tree.logged b m acts).2
  obtain ⟨evs, hrec, hs⟩ := Tree.call_tells hm htrace (Tree.logged_between (b := b) hm hacts) ⟨_, hget⟩ ha
  refine ⟨history x evs, ?_, ?_⟩
  · obtain ⟨l, hl, hl'⟩ := hrec.log
    rw [hget] at hl
    cases hl
    rw [story, story, logged_snoc, ← history_append]
    simp only [logCall, hl']
    rfl
  · rw [logged_snoc]
    exact hs x

/-- The last that is told of a running node is that it is running. -/
theorem Tree.story_running (hacts : ∀ x ∈ acts, x.1.TicksRoot) (hr : (Tree.logged b m acts).1.inst.Running x) :
    (Tree.story b m acts x).getLast? = some (.tick .running) := by
  induction acts using List.reverseRecOn with
  | nil => exact absurd hr (Instance.not_running_new x)
  | append_singleton acts last ih =>
      rw [List.forall_mem_append] at hacts
      obtain ⟨k, hk, hs⟩ := story_snoc hm htrace hacts.1 (hacts.2 last List.mem_cons_self) last.2 x
      rw [hk]
      cases hs with
      | silent hr' =>
          rw [List.append_nil]
          exact ih hacts.1 (hr' hr)
      | activated _ hr' => exact absurd hr hr'
      | resumed st _ hr' => simp [hr' hr]
      | entered st _ hr' => simp [hr' hr]

/-- Every event of a run is added by one of its calls. -/
theorem Tree.story_added {p : List NodeEvent} {e : NodeEvent} (hacts : ∀ x ∈ acts, x.1.TicksRoot)
    (hp : p ++ [e] <+: Tree.story b m acts x) : ∃ before a bb after j post, acts = before ++ (a, bb) :: after ∧
      p = Tree.story b m before x ++ j ∧
      Tree.story b m (before ++ [(a, bb)]) x = p ++ e :: post ∧
      Stretch (a.Resets x) (∃ r, Tree.answer b m before a bb = .ok r) ((Tree.logged b m before).1.inst.Running x)
        ((Tree.logged b m (before ++ [(a, bb)])).1.inst.Running x) (j ++ e :: post) := by
  induction acts using List.reverseRecOn with
  | nil => exact absurd (List.prefix_nil.mp hp) (by simp)
  | append_singleton acts last ih =>
      rw [List.forall_mem_append] at hacts
      obtain ⟨k, hk, hs⟩ := story_snoc hm htrace hacts.1 (hacts.2 last List.mem_cons_self) last.2 x
      by_cases hold : p ++ [e] <+: Tree.story b m acts x
      · obtain ⟨before, a, bb, after, j, post, hsplit, h⟩ := ih hacts.1 hold
        exact ⟨before, a, bb, after ++ [last], j, post, by simp [hsplit], h⟩
      · rw [hk] at hp
        obtain ⟨j, rfl⟩ : Tree.story b m acts x <+: p := by
          refine List.prefix_of_prefix_length_le (List.prefix_append _ k) ((List.prefix_append p [e]).trans hp) ?_
          refine Nat.le_of_not_lt fun hlt => hold (List.prefix_of_prefix_length_le hp (List.prefix_append _ k) ?_)
          rw [List.length_append]
          exact hlt
        obtain ⟨post, hpost⟩ := hp
        obtain rfl : j ++ e :: post = k := by simpa using hpost
        exact ⟨acts, last.1, last.2, [], j, post, rfl, rfl, by simp [hk], hs⟩

/-- Only a node that is inactive, or is to be reset, is reset. -/
theorem Tree.story_reset {p : List NodeEvent} (hacts : ∀ x ∈ acts, x.1.TicksRoot)
    (hp : p ++ [.reset] <+: Tree.story b m acts x) : ∃ before a bb after, acts = before ++ (a, bb) :: after ∧
      Tree.story b m before x = p ∧ p ++ [.reset] <+: Tree.story b m (before ++ [(a, bb)]) x ∧
      (a.Resets x ∨ ¬ (Tree.logged b m before).1.inst.Running x) := by
  obtain ⟨before, a, bb, after, j, post, hsplit, rfl, hstory, hs⟩ := story_added hm htrace hacts hp
  obtain ⟨-, rfl, hr⟩ | ⟨st, hst, -⟩ := hs.at
  · rw [List.append_nil] at hstory ⊢
    exact ⟨before, a, bb, after, hsplit, rfl, ⟨post, by simp [hstory]⟩, hr.symm⟩
  · cases hst

/-- A node comes to a result after it was reset, or where it was running. -/
theorem Tree.story_tick {p : List NodeEvent} {st : Status} (hacts : ∀ x ∈ acts, x.1.TicksRoot)
    (hp : p ++ [.tick st] <+: Tree.story b m acts x) : ∃ before a bb after, acts = before ++ (a, bb) :: after ∧
      Tree.story b m (before ++ [(a, bb)]) x = p ++ [.tick st] ∧
      (Tree.story b m before x = p ∧ p.getLast? = some (.tick .running) ∨
        p = Tree.story b m before x ++ [.reset]) ∧
      ((∃ r, Tree.answer b m before a bb = .ok r) → st = .running →
        (Tree.logged b m (before ++ [(a, bb)])).1.inst.Running x) := by
  obtain ⟨before, a, bb, after, j, post, hsplit, rfl, hstory, hs⟩ := story_added hm htrace hacts hp
  obtain ⟨hst, -⟩ | ⟨st', hst, rfl, hok, hj⟩ := hs.at
  · cases hst
  · cases hst
    refine ⟨before, a, bb, after, hsplit, hstory, ?_, hok⟩
    obtain ⟨rfl, hr⟩ | rfl := hj
    · rw [hsplit, List.forall_mem_append] at hacts
      rw [List.append_nil]
      exact Or.inl ⟨rfl, story_running hm htrace hacts.1 hr⟩
    · exact Or.inr rfl

/-- In every run nodes are activated before they are ticked and resumed while they are running. -/
theorem activation_discipline (acts : List (Act × Blackboard)) (hacts : ∀ x ∈ acts, x.1.TicksRoot) (x : Nat) :
    Tree.Disciplined b m acts x where
  starts e he := by
    cases e with
    | reset => rfl
    | tick st =>
        obtain ⟨post, hpost⟩ := List.head?_eq_some_iff.mp he
        obtain ⟨before, a, bb, after, -, -, hprev, -⟩ := Tree.story_tick hm htrace (p := []) hacts ⟨post, hpost.symm⟩
        simp at hprev
  ticked pre e st post h := by
    have hp : pre ++ [e] ++ [.tick st] <+: Tree.story b m acts x := ⟨post, by simp [h]⟩
    obtain ⟨before, a, bb, after, -, -, hprev, -⟩ := Tree.story_tick hm htrace hacts hp
    rcases hprev with ⟨-, hlast⟩ | hlast
    · exact Or.inr (by simpa using hlast)
    · exact Or.inl (List.singleton_inj.mp (List.append_inj' hlast rfl).2)
  current hr := Tree.story_running hm htrace hacts hr
  cleared pre post h := by
    have hp : pre ++ [.tick .running] ++ [.reset] <+: Tree.story b m acts x := ⟨post, by simp [h]⟩
    obtain ⟨before, a', bb', last, hsplit, hbefore, hreset, hclear⟩ := Tree.story_reset hm htrace hacts hp
    rw [hsplit, List.forall_mem_append] at hacts
    have hp : pre ++ [.tick .running] <+: Tree.story b m before x := ⟨[], by simp [hbefore]⟩
    obtain ⟨first, a, bb, mid, rfl, htick, hprev, hok⟩ := Tree.story_tick hm htrace hacts.1 hp
    refine ⟨first, a, bb, mid, a', bb', last, hsplit, ?_, htick, hbefore, by simpa using hreset,
      fun h => hok h rfl, hclear⟩
    rcases hprev with ⟨rfl, -⟩ | rfl
    · exact List.prefix_refl _
    · exact List.prefix_append _ _

end Runs

/-- A leaf that stays busy is ticked twice and reset by its host in between. -/
theorem activation_discipline_busyLeaf :
    Tree.Disciplined .busyLeaf .tracing [(.tick, .empty), (.reset, .empty), (.tick, .empty)] 0 ∧
      Tree.story .busyLeaf .tracing [(.tick, .empty), (.reset, .empty), (.tick, .empty)] 0 =
        [.reset, .tick .running, .reset, .reset, .tick .running] :=
  ⟨activation_discipline (b := .busyLeaf) (m := .tracing) Machine.Discreet.ofLibrary rfl _ (by decide) 0,
    by decide +kernel⟩

end BehaviorTree
