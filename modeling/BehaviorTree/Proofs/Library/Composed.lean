import BehaviorTree.Library
import BehaviorTree.Proofs.NodeData

/-!
# Trees composed from the constructors of the library

What the constructors put into the data of a node, in particular the handles of a timer: they stay in its
head, and their payloads lie behind it.
-/

namespace BehaviorTree

/-! ## Handles -/

namespace Variable

variable {d d' : NodeData} {v : Variable}

/-- A number handle with a payload of its own, made by a call on a builder on its way from `d` to `d'`. -/
inductive MadeFrom (d d' : NodeData) : Variable → Prop
  | constant {d₁ d₂ : NodeData} {x : Single} {v : Variable} : d.Grows d₁ →
      Variable.constant d₁ (PlainData.f32.encode x) = .ok (v, d₂) → d₂.Grows d' → MadeFrom d d' v
  | blackboard {d₁ d₂ : NodeData} {key : UInt64} {v : Variable} : d.Grows d₁ →
      Variable.blackboard d₁ key = .ok (v, d₂) → d₂.Grows d' → MadeFrom d d' v

/-- The payload of the handle lies in `bs` from `start` on. -/
structure Fits (v : Variable) (start : Nat) (bs : List UInt8) : Prop where
  start : start ≤ v.offset.toNat
  pos : 0 < v.offset.toNat
  payload : v.id = constantId ∧ v.offset.toNat + 4 ≤ bs.length ∨
    v.id = blackboardId ∧ v.offset.toNat + 8 ≤ bs.length

theorem MadeFrom.extends (h : MadeFrom d d' v) : d.Extends d' := by
  cases h with
  | constant h₁ hv h₂ =>
      exact h₁.extends.trans ((NodeData.alloc_extends (alloc_eq_ok hv).2).trans h₂.extends)
  | blackboard h₁ hv h₂ =>
      exact h₁.extends.trans ((NodeData.alloc_extends (alloc_eq_ok hv).2).trans h₂.extends)

theorem Fits.of_length {start : Nat} {bs bs' : List UInt8} (h : v.Fits start bs)
    (hl : bs'.length = bs.length) : v.Fits start bs' :=
  ⟨h.start, h.pos, by rw [hl]; exact h.payload⟩

theorem MadeFrom.fits (h : MadeFrom d d' v) : v.Fits d.bytes.length d'.bytes := by
  cases h with
  | constant h₁ hv h₂ =>
      obtain ⟨hid, ha⟩ := alloc_eq_ok hv
      obtain ⟨hle, hpos, hlen⟩ := NodeData.alloc_offset (by decide) ha
      have hsize : PlainData.f32.type.size = 4 := rfl
      have := h₁.extends.length
      have := h₂.extends.length
      exact ⟨by omega, hpos, Or.inl ⟨hid, by omega⟩⟩
  | blackboard h₁ hv h₂ =>
      obtain ⟨hid, ha⟩ := alloc_eq_ok hv
      obtain ⟨hle, hpos, hlen⟩ := NodeData.alloc_offset (by decide) ha
      have hsize : PlainData.u64.type.size = 8 := rfl
      have := h₁.extends.length
      have := h₂.extends.length
      exact ⟨by omega, hpos, Or.inr ⟨hid, by omega⟩⟩

end Variable

/-! ## Trees -/

namespace Blueprint

def timerData : NodeData := .ofHead (PlainData.delayData.encode ⟨⟨0, 0⟩, ⟨0, 0⟩, .zero⟩)

/-- Trees made by the constructors of the library, parallels with a child at least, timers with handles
from their own builder. -/
inductive Composed : Blueprint → Prop
  | sequence {ts : List Blueprint} : (∀ t ∈ ts, Composed t) → Composed (.sequence ts)
  | selector {ts : List Blueprint} : (∀ t ∈ ts, Composed t) → Composed (.selector ts)
  | parallel {ts : List Blueprint} : ts ≠ [] → (∀ t ∈ ts, Composed t) → Composed (.parallel ts)
  | repetition {t : Blueprint} (times : Int32) (breakOn : UInt8) : Composed t →
      Composed (.repetition times breakOn t)
  | inverter {t : Blueprint} : Composed t → Composed (.inverter t)
  | force {t : Blueprint} (result : Status) : Composed t → Composed (.force result t)
  | fixed (result : Status) : Composed (.fixed result)
  | delayWith {t : Blueprint} {make : NodeData → Except Error ((Variable × Variable) × NodeData)} :
      (∀ duration delta d, make timerData = .ok ((duration, delta), d) →
        duration.MadeFrom timerData d ∧ delta.MadeFrom timerData d) →
      Blueprint.delayWith make = .ok t → Composed t

theorem Composed.untilFailure {t : Blueprint} (h : Composed t) : Composed (.untilFailure t) :=
  .repetition 0 _ h

theorem Composed.delay {t : Blueprint} {duration : Single} {key : UInt64}
    (h : Blueprint.delay duration key = .ok t) : Composed t := by
  refine .delayWith (fun v₁ v₂ d hmake => ?_) h
  obtain ⟨⟨v, d₁⟩, hconst, hmake⟩ := Checked.bind_eq_ok.mp hmake
  obtain ⟨⟨v', d₂⟩, hboard, hmake⟩ := Checked.bind_eq_ok.mp hmake
  cases hmake
  have hgrows : d₁.Grows d := .alloc .refl (Variable.alloc_eq_ok hboard).2
  exact ⟨.constant .refl hconst hgrows,
    .blackboard (.alloc .refl (Variable.alloc_eq_ok hconst).2) hboard .refl⟩

/-- The data of a timer: a head, and for each of its handles a payload behind it. -/
structure TimerData (bs : List UInt8) : Prop where
  length : 20 ≤ bs.length
  fits : ∀ head : PlainData.delayData.type.Value, window bs 0 20 = head.1 →
    (PlainData.delayData.decode head).duration.Fits 20 bs ∧ (PlainData.delayData.decode head).delta.Fits 20 bs

theorem timerData_delayWith {make : NodeData → Except Error ((Variable × Variable) × NodeData)} {t : Blueprint}
    (hmake : ∀ duration delta d, make timerData = .ok ((duration, delta), d) →
      duration.MadeFrom timerData d ∧ delta.MadeFrom timerData d)
    (h : Blueprint.delayWith make = .ok t) : t.type = Library.delayId ∧ t.children = [] ∧ TimerData t.data := by
  obtain ⟨⟨⟨duration, delta⟩, d⟩, hd, h⟩ := Checked.bind_eq_ok.mp h
  obtain ⟨old, -, h⟩ := Checked.bind_eq_ok.mp h
  obtain ⟨d', hset, h⟩ := Checked.bind_eq_ok.mp h
  cases h
  obtain ⟨h₁, h₂⟩ := hmake duration delta d hd
  have hle : 20 ≤ d.bytes.length := h₁.extends.length
  generalize (PlainData.delayData.decode old).elapsed = elapsed at hset
  have hhead := (PlainData.delayData.encode ⟨duration, delta, elapsed⟩).2
  have hl : PlainData.delayData.type.size = 20 := rfl
  have hlen : d'.bytes.length = d.bytes.length := NodeData.size_setHead hset
  refine ⟨rfl, rfl, by rw [data, hlen]; exact hle, fun head hwin => ?_⟩
  have hsame : head = PlainData.delayData.encode ⟨duration, delta, elapsed⟩ := by
    refine Subtype.ext (hwin.symm.trans ?_)
    rw [data, (NodeData.setHead_eq_ok hset).2.2, window, List.drop_zero]
    exact List.take_left' (hhead.trans hl)
  rw [hsame, PlainData.decode_encode]
  exact ⟨h₁.fits.of_length hlen, h₂.fits.of_length hlen⟩

theorem Composed.of_mem_children {t c : Blueprint} (h : Composed t) (hc : c ∈ t.children) : Composed c := by
  cases h with
  | sequence hts => exact hts c hc
  | selector hts => exact hts c hc
  | parallel _ hts => exact hts c hc
  | repetition _ _ ht => exact List.mem_singleton.mp hc ▸ ht
  | inverter ht => exact List.mem_singleton.mp hc ▸ ht
  | force _ ht => exact List.mem_singleton.mp hc ▸ ht
  | fixed _ => cases hc
  | delayWith hmake ht =>
      rw [(timerData_delayWith hmake ht).2.1] at hc
      cases hc

/-- What the library needs of the data and the children of a node of type `type`. -/
inductive Fitted : TypeId → List UInt8 → Nat → Prop
  | sequence {bs : List UInt8} {n : Nat} : Fitted Library.sequenceId bs n
  | selector {bs : List UInt8} {n : Nat} : Fitted Library.selectorId bs n
  | parallel {n : Nat} : 0 < n → Fitted Library.parallelId (List.replicate n Status.running.bits) n
  | repetition {bs : List UInt8} {n : Nat} : bs.length = 12 → 0 < n → Fitted Library.repetitionId bs n
  | inverter {bs : List UInt8} {n : Nat} : 0 < n → Fitted Library.inverterId bs n
  | force {n : Nat} (result : Status) : 0 < n → Fitted Library.forceId [result.bits] n
  | fixed {n : Nat} (result : Status) : Fitted Library.fixedId [result.bits] n
  | delay {bs : List UInt8} {n : Nat} : TimerData bs → Fitted Library.delayId bs n

namespace Fitted

variable {bs : List UInt8} {n : Nat}

theorem inv_parallel (h : Fitted Library.parallelId bs n) :
    0 < n ∧ bs = List.replicate n Status.running.bits := by
  cases h with
  | parallel hn => exact ⟨hn, rfl⟩

theorem inv_repetition (h : Fitted Library.repetitionId bs n) : bs.length = 12 ∧ 0 < n := by
  cases h with
  | repetition hbs hn => exact ⟨hbs, hn⟩

theorem inv_inverter (h : Fitted Library.inverterId bs n) : 0 < n := by
  cases h with
  | inverter hn => exact hn

theorem inv_force (h : Fitted Library.forceId bs n) : (∃ st : Status, bs = [st.bits]) ∧ 0 < n := by
  cases h with
  | force st hn => exact ⟨⟨st, rfl⟩, hn⟩

theorem inv_fixed (h : Fitted Library.fixedId bs n) : ∃ st : Status, bs = [st.bits] := by
  cases h with
  | fixed st => exact ⟨st, rfl⟩

theorem inv_delay (h : Fitted Library.delayId bs n) : TimerData bs := by
  cases h with
  | delay ht => exact ht

theorem mem_behaviors {type : TypeId} (h : Fitted type bs n) : ∃ x ∈ Library.behaviors, x.1 = type := by
  cases h <;> simp [Library.behaviors]

end Fitted

theorem Composed.fitted {t : Blueprint} (h : Composed t) : Fitted t.type t.data t.children.length := by
  cases h with
  | sequence _ => exact .sequence
  | selector _ => exact .selector
  | parallel hne _ => exact .parallel (List.length_pos_iff.mpr hne)
  | repetition times breakOn _ =>
      exact .repetition (PlainData.repeatData.encode ⟨times, 0, breakOn, .replicate 3 0⟩).2 Nat.one_pos
  | inverter _ => exact .inverter Nat.one_pos
  | force result _ => exact .force result Nat.one_pos
  | fixed result => exact .fixed result
  | delayWith hmake ht =>
      obtain ⟨htype, -, hdata⟩ := timerData_delayWith hmake ht
      rw [htype]
      exact .delay hdata

end Blueprint

/-- Every node of a blob built from a composed tree has the data that the library needs. -/
theorem Blob.fitted {b : Blob} {t : Blueprint} (ht : t.Composed) (hb : t.build = .ok b) {i : Nat}
    (hi : i < b.size) : ∃ type, b.typeOf i = .ok type ∧
      Blueprint.Fitted type (b.defaults i) (b.childList i).length := by
  have hdraw := Blueprint.build_draws hb
  have hsize : i < 0 + t.size := by rw [← hdraw.stop, b.stop_root]; exact hi
  obtain ⟨t', ht', hdraw'⟩ := hdraw.exists_at (fun _ h _ hc => h.of_mem_children hc) ht i
    (Nat.zero_le i) hsize
  refine ⟨t'.type, hdraw'.type, ?_⟩
  rw [hdraw'.data, hdraw'.childList, Blueprint.length_roots]
  exact ht'.fitted

end BehaviorTree
