import BehaviorTree.Proofs.Instance.Frame
import BehaviorTree.Trace

/-!
# Accounts of what happened to nodes

The events of a tick tell, node by node, an episode: a node is skipped, or activated and ticked, or ticked
without activation because it was running. Events of a subtree stand between the reset and the tick of its
root. Accounts of neighbouring subtrees make up an account of both, in this order.
-/

namespace BehaviorTree

/-! ## Histories -/

/-- The events of node `x`, in order. -/
def history (x : Nat) (evs : List TraceEvent) : List NodeEvent := (evs.filter (·.node = x)).map (·.event)

section History

variable {x : Nat} {evs evs' : List TraceEvent}

@[simp] theorem history_nil : history x [] = [] := rfl

@[simp] theorem history_append : history x (evs ++ evs') = history x evs ++ history x evs' := by
  simp [history]

theorem history_self (t : UInt64) (ev : NodeEvent) : history x [⟨t, x, ev⟩] = [ev] := by
  simp [history]

theorem history_eq_nil (h : ∀ e ∈ evs, e.node ≠ x) : history x evs = [] := by
  rw [history, List.filter_eq_nil_iff.mpr fun e he => by simpa using h e he, List.map_nil]

end History

/-- What a tick may do to the cell `c` of a node and tell about it. A whole tick comes to a result at every
node that it activates. -/
inductive Episode (whole : Prop) (c c' : Cell) : List NodeEvent → Prop
  | skipped (hs : c'.state = c.state ∨ c'.state = none)
      (hw : whole → c'.state ≠ some .running ∧ (c' = c ∨ c'.state = none)) : Episode whole c c' []
  | activated (hc : c.state ≠ some .running) (hc' : c'.state ≠ some .running) (hw : ¬ whole) :
      Episode whole c c' [.reset]
  | resumed (st : Status) (hc : c.state = some .running) (hs : c'.state = some st ∨ c'.state = none)
      (hw : whole → c'.state = some st) : Episode whole c c' [.tick st]
  | entered (st : Status) (hc : c.state ≠ some .running) (hs : c'.state = some st ∨ c'.state = none)
      (hw : whole → c'.state = some st) : Episode whole c c' [.reset, .tick st]

namespace Episode

variable {whole whole' : Prop} {c c' : Cell} {h : List NodeEvent}

theorem mono (he : Episode whole c c' h) (hw : whole' → whole) : Episode whole' c c' h := by
  cases he with
  | skipped hs hw' => exact .skipped hs fun h => hw' (hw h)
  | activated hc hc' hw' => exact .activated hc hc' fun h => hw' (hw h)
  | resumed st hc hs hw' => exact .resumed st hc hs fun h => hw' (hw h)
  | entered st hc hs hw' => exact .entered st hc hs fun h => hw' (hw h)

/-- Making the node inactive afterwards takes back its result, but not what was told. -/
theorem clear (he : Episode whole c c' h) : Episode False c { c' with state := none } h := by
  cases he with
  | skipped => exact .skipped (Or.inr rfl) False.elim
  | activated hc => exact .activated hc nofun id
  | resumed st hc => exact .resumed st hc (Or.inr rfl) False.elim
  | entered st hc => exact .entered st hc (Or.inr rfl) False.elim

end Episode

/-! ## The order of events -/

/-- The first event may come before the second: a node is reset before, and ticked after, everything that
happens below it, and what happens in two separate subtrees happens in the order of the nodes. -/
structure Blob.Precedes (b : Blob) (e e' : TraceEvent) : Prop where
  below : Within e.node (b.stop e.node) e'.node → e.event = .reset
  above : Within e'.node (b.stop e'.node) e.node → ∃ st, e'.event = .tick st
  apart : ¬ Within e.node (b.stop e.node) e'.node → ¬ Within e'.node (b.stop e'.node) e.node → e.node < e'.node

variable {b : Blob}

/-- What the events tell of the nodes from `lo` to before `hi` on the way from `s` to `s'`. -/
structure Account (whole : Prop) (lo hi : Nat) (s s' : Instance b) (evs : List TraceEvent) : Prop where
  stamp : ∀ e ∈ evs, e.tick = s.tick
  node : ∀ e ∈ evs, Within lo hi e.node
  order : evs.Pairwise b.Precedes
  episode : ∀ x, Within lo hi x → Episode whole (s.cell x) (s'.cell x) (history x evs)

namespace Account

variable {whole whole' : Prop} {lo mid hi i : Nat} {s s₁ s₂ s' : Instance b} {evs evs' : List TraceEvent}

theorem mono (h : Account whole lo hi s s' evs) (hw : whole' → whole) : Account whole' lo hi s s' evs :=
  ⟨h.stamp, h.node, h.order, fun x hx => (h.episode x hx).mono hw⟩

/-- A tick that fails is not whole. -/
theorem failed {α : Type} {e : Fault} (h : Account whole lo hi s s' evs) :
    Account (∃ a : α, (.error e : Except Fault α) = .ok a) lo hi s s' evs := h.mono fun hok => by
  obtain ⟨a, ha⟩ := hok
  cases ha

/-- Nothing is told of nodes that are left alone or made inactive. -/
theorem silent (h : ∀ x, Within lo hi x → (s'.cell x).state = (s.cell x).state ∨ (s'.cell x).state = none)
    (hw : whole → ∀ x, Within lo hi x → ¬ s'.Running x ∧ (s'.cell x = s.cell x ∨ (s'.cell x).state = none)) :
    Account whole lo hi s s' [] where
  stamp := nofun
  node := nofun
  order := .nil
  episode x hx := .skipped (h x hx) fun hw' => hw hw' x hx

theorem clear (h : Account whole lo hi s s₁ evs)
    (hc : ∀ x, Within lo hi x → s'.cell x = { s₁.cell x with state := none }) : Account False lo hi s s' evs where
  stamp := h.stamp
  node := h.node
  order := h.order
  episode x hx := by
    rw [hc x hx]
    exact (h.episode x hx).clear

/-- The account is about the cells of its nodes. -/
theorem congr {r r' : Instance b} (h : Account whole lo hi s s' evs) (htick : r.tick = s.tick)
    (hs : ∀ x, Within lo hi x → r.cell x = s.cell x) (hs' : ∀ x, Within lo hi x → r'.cell x = s'.cell x) :
    Account whole lo hi r r' evs where
  stamp e he := by rw [htick, h.stamp e he]
  node := h.node
  order := h.order
  episode x hx := by
    rw [hs x hx, hs' x hx]
    exact h.episode x hx

theorem history_outside (h : Account whole lo hi s s' evs) {x : Nat} (hx : ¬ Within lo hi x) :
    history x evs = [] := history_eq_nil fun e he heq => hx (heq ▸ h.node e he)

/-- Two ranges side by side, where no subtree of the first reaches into the second. -/
theorem append (h : Account whole lo mid s s' evs) (h' : Account whole mid hi s s' evs') (hlo : lo ≤ mid)
    (hmid : mid ≤ hi) (hclosed : ∀ x, Within lo mid x → b.stop x ≤ mid) :
    Account whole lo hi s s' (evs ++ evs') where
  stamp e he := (List.mem_append.mp he).elim (h.stamp e) (h'.stamp e)
  node e he := by
    rcases List.mem_append.mp he with he | he
    · exact ⟨(h.node e he).1, Nat.lt_of_lt_of_le (h.node e he).2 hmid⟩
    · exact ⟨Nat.le_trans hlo (h'.node e he).1, (h'.node e he).2⟩
  order := by
    refine List.pairwise_append.mpr ⟨h.order, h'.order, fun e he e' he' => ?_⟩
    have hn := h.node e he
    have hn' := h'.node e' he'
    have hstop := hclosed e.node hn
    refine ⟨fun hw => ?_, fun hw => ?_, fun _ _ => Nat.lt_of_lt_of_le hn.2 hn'.1⟩
    · exact absurd hw.2 (Nat.not_lt.mpr (Nat.le_trans hstop hn'.1))
    · exact absurd hw.1 (Nat.not_le.mpr (Nat.lt_of_lt_of_le hn.2 hn'.1))
  episode x hx := by
    rw [history_append]
    rcases Nat.lt_or_ge x mid with hlt | hge
    · rw [h'.history_outside fun hw => Nat.not_lt.mpr hw.1 hlt, List.append_nil]
      exact h.episode x ⟨hx.1, hlt⟩
    · rw [h.history_outside fun hw => Nat.not_lt.mpr hge hw.2, List.nil_append]
      exact h'.episode x ⟨hge, hx.2⟩

section Around

variable {pre post : List TraceEvent} {t : UInt64}

/-- The reset of a node comes before, and its result after, the events below it. -/
theorem pairwise_around (hi : i < b.size) (horder : evs.Pairwise b.Precedes)
    (hbelow : ∀ e ∈ evs, Within (i + 1) (b.stop i) e.node) (hpre : pre = [] ∨ pre = [⟨t, i, .reset⟩])
    (hpost : post = [] ∨ ∃ st, post = [⟨t, i, .tick st⟩]) : (pre ++ evs ++ post).Pairwise b.Precedes := by
  have hin : Within i (b.stop i) i := ⟨Nat.le_refl i, Blob.lt_stop hi⟩
  have hunder : ∀ e ∈ evs, Within i (b.stop i) e.node := fun e he =>
    ⟨Nat.le_of_succ_le (hbelow e he).1, (hbelow e he).2⟩
  refine List.pairwise_append.mpr ⟨List.pairwise_append.mpr ⟨?_, horder, ?_⟩, ?_, ?_⟩
  · rcases hpre with rfl | rfl <;> simp
  · rcases hpre with rfl | rfl
    · exact fun e he => absurd he List.not_mem_nil
    · intro e he e' he'
      rw [List.mem_singleton.mp he]
      exact ⟨fun _ => rfl, fun hw => absurd hw.1 (Nat.not_le.mpr (hbelow e' he').1),
        fun hn => absurd (hunder e' he') hn⟩
  · rcases hpost with rfl | ⟨st, rfl⟩ <;> simp
  · rcases hpost with rfl | ⟨st, rfl⟩
    · exact fun e _ e' he' => absurd he' List.not_mem_nil
    · intro e he e' he'
      rw [List.mem_singleton.mp he']
      rcases List.mem_append.mp he with he | he
      · rcases hpre with rfl | rfl
        · exact absurd he List.not_mem_nil
        · rw [List.mem_singleton.mp he]
          exact ⟨fun _ => rfl, fun _ => ⟨st, rfl⟩, fun hn => absurd hin hn⟩
      · exact ⟨fun hw => absurd hw.1 (Nat.not_le.mpr (hbelow e he).1), fun _ => ⟨st, rfl⟩,
          fun _ hn => absurd (hunder e he) hn⟩

/-- The events of a node around those below it. -/
theorem around (h : Account whole (i + 1) (b.stop i) s s' evs) (hi : i < b.size)
    (hpre : pre = [] ∨ pre = [⟨s.tick, i, .reset⟩]) (hpost : post = [] ∨ ∃ st, post = [⟨s.tick, i, .tick st⟩])
    (hself : Episode whole (s.cell i) (s'.cell i) (history i pre ++ history i post)) :
    Account whole i (b.stop i) s s' (pre ++ evs ++ post) := by
  have hown : ∀ e, e ∈ pre ∨ e ∈ post → e.tick = s.tick ∧ e.node = i := by
    rintro e (he | he)
    · rcases hpre with rfl | rfl
      · cases he
      · rw [List.mem_singleton.mp he]
        exact ⟨rfl, rfl⟩
    · rcases hpost with rfl | ⟨st, rfl⟩
      · cases he
      · rw [List.mem_singleton.mp he]
        exact ⟨rfl, rfl⟩
  have hcases : ∀ e ∈ pre ++ evs ++ post, e ∈ evs ∨ e ∈ pre ∨ e ∈ post := fun e he => by
    rcases List.mem_append.mp he with he | he
    · exact (List.mem_append.mp he).elim (fun h => Or.inr (Or.inl h)) Or.inl
    · exact Or.inr (Or.inr he)
  refine ⟨fun e he => ?_, fun e he => ?_, pairwise_around hi h.order h.node hpre hpost, fun x hx => ?_⟩
  · rcases hcases e he with he | he
    · exact h.stamp e he
    · exact (hown e he).1
  · rcases hcases e he with he | he
    · exact ⟨Nat.le_of_succ_le (h.node e he).1, (h.node e he).2⟩
    · rw [(hown e he).2]
      exact ⟨Nat.le_refl i, Blob.lt_stop hi⟩
  · rw [history_append, history_append]
    rcases Nat.eq_or_lt_of_le hx.1 with rfl | hlt
    · rw [h.history_outside fun hw => Nat.not_succ_le_self i hw.1, List.append_nil]
      exact hself
    · have hne : i ≠ x := Nat.ne_of_lt hlt
      have hbefore : history x pre = [] := history_eq_nil fun e he => (hown e (Or.inl he)).2 ▸ hne
      have hafter : history x post = [] := history_eq_nil fun e he => (hown e (Or.inr he)).2 ▸ hne
      rw [hbefore, hafter, List.nil_append, List.append_nil]
      exact h.episode x ⟨hlt, hx.2⟩

end Around

end Account

end BehaviorTree
