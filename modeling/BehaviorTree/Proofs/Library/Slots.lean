import BehaviorTree.Proofs.Library.Loops

/-!
# The result bytes of a parallel

A parallel holds one result byte for each child. A pass over the slots replaces the bytes of the children
it ticks, so every running child is marked as running before and after it.
-/

namespace BehaviorTree

/-- `bs'` is `bs` with results in place of some bytes. -/
structure Relabels (bs bs' : List UInt8) : Prop where
  length : bs'.length = bs.length
  byte : ∀ k : Nat, bs'[k]? = bs[k]? ∨ ∃ st : Status, bs'[k]? = some st.bits

namespace Relabels

variable {bs bs' bs'' : List UInt8}

theorem refl (bs : List UInt8) : Relabels bs bs := ⟨rfl, fun _ => Or.inl rfl⟩

theorem trans (h : Relabels bs bs') (h' : Relabels bs' bs'') : Relabels bs bs'' := by
  refine ⟨h'.length.trans h.length, fun k => ?_⟩
  rcases h'.byte k with hk | hk
  · rw [hk]
    exact h.byte k
  · exact Or.inr hk

theorem set {k : Nat} (hk : k < bs.length) (st : Status) : Relabels bs (bs.set k st.bits) := by
  refine ⟨List.length_set, fun j => ?_⟩
  by_cases hj : k = j
  · subst hj
    exact Or.inr ⟨st, List.getElem?_set_self hk⟩
  · exact Or.inl (List.getElem?_set_ne hj)

theorem status_error {c c' : Cell} {i k : Nat} {e : Error} (h : Relabels c.bytes c'.bytes)
    (he : c'.status i k = .error e) : c.status i k = .error e := by
  rcases h.byte k with hk | ⟨st, hk⟩
  · unfold Cell.status at he ⊢
    rw [hk, h.length] at he
    exact he
  · rw [Cell.status_eq_ok.mpr hk] at he
    cases he

end Relabels

namespace Cell

variable {c : Cell} {i : Nat}

/-- The results in bytes `ks`. -/
def statuses (c : Cell) (i : Nat) : List Nat → Except Error (List Status)
  | [] => .ok []
  | k :: ks => do
    let s ← c.status i k
    return s :: (← c.statuses i ks)

theorem statuses_error {e : Error} : ∀ {ks : List Nat}, c.statuses i ks = .error e →
    ∃ k ∈ ks, c.status i k = .error e
  | k :: ks, h => by
      cases hk : c.status i k with
      | error e' =>
          simp only [statuses, hk, bind, Except.bind] at h
          cases h
          exact ⟨k, List.mem_cons_self, hk⟩
      | ok st =>
          cases hks : c.statuses i ks with
          | error e' =>
              simp only [statuses, hk, hks, bind, Except.bind] at h
              cases h
              obtain ⟨j, hj, he⟩ := statuses_error hks
              exact ⟨j, List.mem_cons_of_mem _ hj, he⟩
          | ok ss =>
              simp only [statuses, hk, hks, bind, Except.bind] at h
              cases h

theorem statuses_at : ∀ {ks : List Nat} {ss : List Status}, c.statuses i ks = .ok ss → ∀ k ∈ ks,
    ∃ st ∈ ss, c.bytes[k]? = some st.bits
  | [], _, _ => fun _ hk => absurd hk List.not_mem_nil
  | k :: ks, ss, h => by
      obtain ⟨s, hk, h⟩ := Checked.bind_eq_ok.mp h
      obtain ⟨rest, hks, h⟩ := Checked.bind_eq_ok.mp h
      cases h
      refine List.forall_mem_cons.mpr ⟨⟨s, List.mem_cons_self, status_eq_ok.mp hk⟩, fun j hj => ?_⟩
      obtain ⟨st, hst, hbyte⟩ := statuses_at hks j hj
      exact ⟨st, List.mem_cons_of_mem _ hst, hbyte⟩

theorem mem_statuses {st : Status} : ∀ {ks : List Nat} {ss : List Status}, c.statuses i ks = .ok ss →
    (st ∈ ss ↔ ∃ k ∈ ks, c.bytes[k]? = some st.bits)
  | [], ss, h => by
      cases h
      simp
  | k :: ks, ss, h => by
      cases hk : c.status i k with
      | error e =>
          simp only [statuses, hk, bind, Except.bind] at h
          cases h
      | ok s =>
          cases hks : c.statuses i ks with
          | error e =>
              simp only [statuses, hk, hks, bind, Except.bind] at h
              cases h
          | ok rest =>
              simp only [statuses, hk, hks, bind, Except.bind] at h
              cases h
              have hbyte := status_eq_ok.mp hk
              simp only [List.mem_cons, mem_statuses hks, exists_eq_or_imp, hbyte, Option.some.injEq]
              exact or_congr_left ⟨fun h => by rw [h], fun h => (Status.bits_injective h).symm⟩

end Cell

theorem window_succ {l : List UInt8} {k : Nat} {v : UInt8} (h : l[k]? = some v) (n : Nat) :
    window l k (n + 1) = v :: window l (k + 1) n := by
  obtain ⟨hk, rfl⟩ := List.getElem?_eq_some_iff.mp h
  rw [window, window, List.drop_eq_getElem_cons hk, List.take_succ_cons]

namespace Library

variable {b : Blob} {C : Contract b} {tk : Nat → Run b Status} {i hi : Nat}

/-- The running ones of the children with results from byte `k` on are marked so. -/
def Marked (s : Instance b) (i k : Nat) (cs : List Nat) : Prop :=
  ∀ x ∈ cs.zipIdx k, s.Running x.1 → (s.cell i).bytes[x.2]? = some Status.running.bits

theorem marked_cons {s : Instance b} {k c : Nat} {cs : List Nat} : Marked s i k (c :: cs) ↔
    (s.Running c → (s.cell i).bytes[k]? = some Status.running.bits) ∧ Marked s i (k + 1) cs := by
  simp only [Marked, List.zipIdx_cons, List.forall_mem_cons]

theorem marked_singleton {s : Instance b} {k c : Nat} : Marked s i k [c] ↔
    (s.Running c → (s.cell i).bytes[k]? = some Status.running.bits) :=
  List.forall_mem_singleton

theorem Marked.congr {s s' : Instance b} {k : Nat} {cs : List Nat} (h : Marked s i k cs)
    (hcs : ∀ c ∈ cs, s'.cell c = s.cell c)
    (hbs : ∀ j : Nat, k ≤ j → (s'.cell i).bytes[j]? = (s.cell i).bytes[j]?) : Marked s' i k cs := by
  intro x hx hrun
  rw [hbs _ (List.le_snd_of_mem_zipIdx hx)]
  refine h x hx ?_
  rw [Instance.Running, ← hcs x.1 (List.fst_mem_of_mem_zipIdx hx)]
  exact hrun

/-- A pass over the slots from byte `k` on, up to its end or its first failure. -/
structure Pass (C : Contract b) (i lo hi k : Nat) (cs : List Nat) (s s' : Instance b) : Prop where
  frame : s.Frame (fun j => j = i ∨ Within lo hi j) s'
  state : (s'.cell i).state = (s.cell i).state
  on : C.On s' lo hi
  relabels : Relabels (s.cell i).bytes (s'.cell i).bytes
  before : ∀ j : Nat, j < k → (s'.cell i).bytes[j]? = (s.cell i).bytes[j]?
  marked : Marked s' i k cs

namespace Pass

variable {s s₁ s₂ : Instance b} {lo k c : Nat} {cs : List Nat}

theorem refl (hon : C.On s lo hi) (hm : Marked s i k cs) : Pass C i lo hi k cs s s :=
  ⟨Instance.Frame.refl _ _, rfl, hon, Relabels.refl _, fun _ _ => rfl, hm⟩

theorem cell (h : Pass C i c (b.stop c) k [c] s s₁) (hlo : i < c) {d : Nat} (hcd : c < d)
    (hd : b.stop c ≤ d) : s₁.cell d = s.cell d := by
  refine h.frame.cell d fun hw => ?_
  rcases hw with rfl | hw
  · exact Nat.lt_asymm hlo hcd
  · exact Nat.not_lt.mpr hd hw.2

/-- The child of a slot was ticked, its byte not replaced yet. -/
theorem ticked (hlo : i < c) (hf : s.Frame (Within c (b.stop c)) s₁) (hon : C.On s₁ c (b.stop c))
    (hbyte : (s.cell i).bytes[k]? = some Status.running.bits) : Pass C i c (b.stop c) k [c] s s₁ := by
  have hself : s₁.cell i = s.cell i := hf.cell i fun h => Nat.not_lt.mpr h.1 hlo
  refine ⟨hf.mono fun _ hj => Or.inr hj, by rw [hself], hon, ?_, fun _ _ => by rw [hself],
    marked_singleton.mpr fun _ => ?_⟩
  · rw [hself]
    exact Relabels.refl _
  · rw [hself]
    exact hbyte

/-- The byte of a slot was replaced by the result of its child. -/
theorem recorded {st : Status} (h : Pass C i c (b.stop c) k [c] s s₁) (hlo : i < c) (hc : c < b.size)
    (hk : k < (s₁.cell i).bytes.length) (hst : (s₁.cell c).state = some st)
    (hset : s₁.Sets i { s₁.cell i with bytes := (s₁.cell i).bytes.set k st.bits } s₂) :
    Pass C i c (b.stop c) k [c] s s₂ where
  frame := h.frame.trans (hset.frame.mono fun _ hj => Or.inl hj)
  state := by
    rw [hset.self]
    exact h.state
  on := h.on.after (Blob.stop_le hc) hset.frame fun j hj => by omega
  relabels := by
    rw [hset.self]
    exact h.relabels.trans (Relabels.set hk st)
  before j hj := by
    rw [hset.self, List.getElem?_set_ne (Nat.ne_of_gt hj)]
    exact h.before j hj
  marked := marked_singleton.mpr fun hrun => by
    rw [Instance.Running, hset.other c (Nat.ne_of_gt hlo), hst] at hrun
    rw [hset.self, List.getElem?_set_self hk, Option.some.inj hrun]

/-- The nodes after the first slot are as they were. -/
theorem on_rest (h : Pass C i c (b.stop c) k [c] s s₁) (hlo : i < c) (hc : c < b.stop c) (hhi : hi ≤ b.size)
    (hon : C.On s c hi) : C.On s₁ (b.stop c) hi :=
  (hon.mono (Nat.le_of_lt hc) (Nat.le_refl _)).after hhi h.frame fun j hj => by
    rcases hj with hj | hj
    · omega
    · exact hj.2

/-- A pass that ends at its first slot. -/
theorem stopped (h : Pass C i c (b.stop c) k [c] s s₁) (hhi : b.stop c ≤ hi) (hon : C.On s₁ (b.stop c) hi)
    (hm : Marked s₁ i (k + 1) cs) : Pass C i c hi k (c :: cs) s s₁ where
  frame := h.frame.mono fun _ hj => hj.imp_right fun hj => ⟨hj.1, Nat.lt_of_lt_of_le hj.2 hhi⟩
  state := h.state
  on := h.on.append hon
  relabels := h.relabels
  before := h.before
  marked := marked_cons.mpr ⟨(marked_cons.mp h.marked).1, hm⟩

/-- A pass that goes on after its first slot. -/
theorem cons (h : Pass C i c (b.stop c) k [c] s s₁) (h' : Pass C i (b.stop c) hi (k + 1) cs s₁ s₂)
    (hlo : i < c) (hc : c < b.stop c) (hhi : b.stop c ≤ hi) (hcs : c < b.size) :
    Pass C i c hi k (c :: cs) s s₂ := by
  have hcell : s₂.cell c = s₁.cell c := h'.frame.cell c fun hw => by
    rcases hw with hw | hw
    · omega
    · have := hw.1
      omega
  refine ⟨?_, h'.state.trans h.state, ?_, h.relabels.trans h'.relabels, ?_,
    marked_cons.mpr ⟨fun hrun => ?_, h'.marked⟩⟩
  · refine Instance.Frame.trans (h.frame.mono ?_) (h'.frame.mono ?_)
    · exact fun _ hj => hj.imp_right fun hj => ⟨hj.1, Nat.lt_of_lt_of_le hj.2 hhi⟩
    · exact fun _ hj => hj.imp_right fun hj => ⟨Nat.le_trans (Nat.le_of_lt hc) hj.1, hj.2⟩
  · refine (h.on.apart hcs h'.frame fun j hj hin => ?_).append h'.on
    rcases hj with hj | hj
    · have := hin.1
      omega
    · exact Nat.not_lt.mpr hj.1 hin.2
  · intro j hj
    rw [h'.before j (Nat.lt_succ_of_lt hj), h.before j hj]
  · rw [Instance.Running, hcell] at hrun
    rw [h'.before k (Nat.lt_succ_self k)]
    exact (marked_cons.mp h.marked).1 hrun

end Pass

theorem anyRunning_yields {w : World b} (hi : i < b.size) : ∀ {ks : List Nat}
    {Q : Except Fault Bool → World b → Prop}, (anyRunning i ks).Yields w Q ↔
      Q (Checked.ofExcept ((decide <| .running ∈ ·) <$> (w.inst.cell i).statuses i ks)) w
  | [], Q => Iff.rfl
  | k :: ks, Q => by
      simp only [anyRunning, Run.yields_bind, Run.readStatus_yields hi, anyRunning_yields hi,
        Run.yields_pure, Cell.statuses]
      cases (w.inst.cell i).status i k with
      | error e => exact Iff.rfl
      | ok s =>
          cases (w.inst.cell i).statuses i ks with
          | error e => exact Iff.rfl
          | ok ss =>
              have hmem : (s.isRunning || decide (.running ∈ ss)) = decide (.running ∈ s :: ss) := by
                cases s <;> simp [Status.isRunning]
              change Q (.ok _) w ↔ Q (.ok _) w
              rw [hmem]

theorem combine_eq_running {rs : List Status} : combine rs = .running ↔ .running ∈ rs := by
  unfold combine
  split
  · simp [*]
  · split <;> simp [*]

def tickSlot (tick : Nat → Run b Status) (i c k : Nat) : Run b Status := do
  let s ← Run.readStatus i k
  if s.isRunning then do
    let s ← tick c
    Run.writeStatus i k s
    return s
  else return s

theorem tickSlots_cons (c k : Nat) (rest : List (Nat × Nat)) : tickSlots tk i ((c, k) :: rest) =
    tickSlot tk i c k >>= fun s => tickSlots tk i rest >>= fun rs => pure (s :: rs) := by
  simp only [tickSlots, tickSlot, bind_assoc]
  refine bind_congr fun s => ?_
  split
  · simp only [bind_assoc, pure_bind]
  · simp only [pure_bind]

theorem tickSlot_kept {c k : Nat} (hic : i < c) (hc : c < b.size) (hkept : C.Kept c (tk c)) (w : World b)
    (hon : C.On w.inst c (b.stop c))
    (hm : w.inst.Running c → (w.inst.cell i).bytes[k]? = some Status.running.bits)
    (hread : ∀ e, (w.inst.cell i).status i k = .error e → C.fault (.error e)) :
    (tickSlot tk i c k).Yields w fun r w' => Pass C i c (b.stop c) k [c] w.inst w'.inst ∧
      (∀ j, j ≠ k → (w'.inst.cell i).bytes[j]? = (w.inst.cell i).bytes[j]?) ∧
      match r with
      | .ok st => (w'.inst.cell i).bytes[k]? = some st.bits
      | .error e => C.fault e := by
  have hi : i < b.size := by omega
  have hsame : Pass C i c (b.stop c) k [c] w.inst w.inst := Pass.refl hon (marked_singleton.mpr hm)
  simp only [tickSlot, Run.yields_bind, Run.readStatus_yields hi]
  cases hst : (w.inst.cell i).status i k with
  | error e => exact ⟨hsame, fun _ _ => trivial, hread e hst⟩
  | ok st =>
      have hbyte := Cell.status_eq_ok.mp hst
      obtain ⟨hk, -⟩ := List.getElem?_eq_some_iff.mp hbyte
      simp only [Checked.ofExcept_ok]
      cases hrun : st.isRunning with
      | false =>
          exact ⟨hsame, fun _ _ => rfl, hbyte⟩
      | true =>
          rw [Status.isRunning_iff.mp hrun] at hbyte
          simp only [↓reduceIte, Run.yields_bind, Run.yields_pure]
          refine (hkept w hon).mono ?_
          rintro r w₁ ⟨hf₁, hon₁, hr⟩
          have hself : w₁.inst.cell i = w.inst.cell i := hf₁.cell i fun h => Nat.not_lt.mpr h.1 hic
          have hpass : Pass C i c (b.stop c) k [c] w.inst w₁.inst := Pass.ticked hic hf₁ hon₁ hbyte
          cases r with
          | error e => exact ⟨hpass, fun j _ => by rw [hself], hr⟩
          | ok st' =>
              rw [← hself] at hk
              refine (Run.writeStatus_yields hi hk st').mono ?_
              rintro r w₂ ⟨rfl, hset, _⟩
              refine ⟨hpass.recorded hic hc hk hr hset, fun j hj => ?_, ?_⟩
              · rw [hset.self, List.getElem?_set_ne (Ne.symm hj), hself]
              · rw [hset.self, List.getElem?_set_self hk]

theorem tickSlots_kept (hhi : hi ≤ b.size) : ∀ {cs : List Nat} {lo k : Nat}, i < lo → b.Tiles hi lo cs →
    (∀ c ∈ cs, C.Kept c (tk c)) → ∀ w : World b, C.On w.inst lo hi → Marked w.inst i k cs →
    (∀ x ∈ cs.zipIdx k, ∀ e, (w.inst.cell i).status i x.2 = .error e → C.fault (.error e)) →
    (tickSlots tk i (cs.zipIdx k)).Yields w fun r w' => Pass C i lo hi k cs w.inst w'.inst ∧
      match r with
      | .ok rs => window (w'.inst.cell i).bytes k cs.length = rs.map Status.bits
      | .error e => C.fault e
  | [], lo, k, _, _, _, w, hon, hm, _ => ⟨Pass.refl hon hm, List.take_zero⟩
  | c :: cs, lo, k, hlo, ⟨hc, hlt, hle, ht⟩, hkept, w, hon, hm, hread => by
      subst hc
      have hcs : c < b.size := by omega
      rw [List.zipIdx_cons, List.forall_mem_cons] at hread
      rw [marked_cons] at hm
      rw [List.zipIdx_cons, tickSlots_cons, Run.yields_bind]
      refine (tickSlot_kept hlo hcs (hkept c List.mem_cons_self) w (hon.mono (Nat.le_refl _) hle) hm.1
        hread.1).mono ?_
      rintro r w₁ ⟨h₁, hother, hr⟩
      have hon₁ : C.On w₁.inst (b.stop c) hi := h₁.on_rest hlo hlt hhi hon
      have hm₁ : Marked w₁.inst i (k + 1) cs := by
        refine hm.2.congr (fun d hd => ?_) fun j hj => hother j (by omega)
        have hstop := (ht.mem hd).1
        exact h₁.cell hlo (Nat.lt_of_lt_of_le hlt hstop) hstop
      cases r with
      | error e => exact ⟨h₁.stopped hle hon₁ hm₁, hr⟩
      | ok st =>
          simp only [Run.yields_bind, Run.yields_pure]
          refine (tickSlots_kept hhi (by omega) ht (fun d hd => hkept d (List.mem_cons_of_mem _ hd)) w₁
            hon₁ hm₁ fun x hx e he => hread.2 x hx e (h₁.relabels.status_error he)).mono ?_
          rintro r w₂ ⟨h₂, hr₂⟩
          have hpass : Pass C i c hi k (c :: cs) w.inst w₂.inst := h₁.cons h₂ hlo hlt hle hcs
          cases r with
          | error e => exact ⟨hpass, hr₂⟩
          | ok rs =>
              have hat : (w₂.inst.cell i).bytes[k]? = some st.bits := by
                rw [h₂.before k (Nat.lt_succ_self k)]
                exact hr
              refine ⟨hpass, ?_⟩
              rw [List.length_cons, window_succ hat, hr₂]
              rfl

end Library

end BehaviorTree
