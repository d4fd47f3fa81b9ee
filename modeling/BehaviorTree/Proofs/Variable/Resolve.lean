import BehaviorTree.Proofs.Instance.Arrays
import BehaviorTree.Proofs.Layout.Rebuild
import BehaviorTree.Proofs.NodeData
import BehaviorTree.Proofs.Variable.Registry
import BehaviorTree.Variable.Resolve

/-!
# Handles resolve to what they were made for

An offset is counted in the payloads of one node, then in the data of the blob, then in the memory of an
instance. Whatever calls build the data of a node, and wherever in a tree the node stands, each handle
finds its payload there.
-/

namespace BehaviorTree

/-! ## Calls on the builder -/

/-- A value with an alignment, a power of two, of at most that of node data. So it divides that. -/
structure Payload where
  type : ValueType
  aligned : type.align ∣ dataAlign
  value : type.Value

theorem Payload.align_pos (p : Payload) : 0 < p.type.align := Nat.pos_of_dvd_of_pos p.aligned (by decide)

/-- A call on a builder. The type of a variable decides how it is resolved later. -/
inductive DataStep where
  | alloc (p : Payload)
  | constant (p : Payload)
  | blackboard (t : ValueType) (key : UInt64)
  | node (t : ValueType) (ref : NodeRef)
  | update (t : ValueType) (f : t.Value → t.Value)

inductive DataReply where
  | offset (o : UInt32)
  | handle (v : Variable)
  | done

namespace DataStep

def run : DataStep → NodeData → Except Error (DataReply × NodeData)
  | alloc p, d => do
      let (o, d) ← d.alloc p.value
      return (.offset o, d)
  | constant p, d => do
      let (v, d) ← Variable.constant d p.value
      return (.handle v, d)
  | blackboard _ key, d => do
      let (v, d) ← Variable.blackboard d key
      return (.handle v, d)
  | node _ ref, d => do
      let (v, d) ← Variable.node d ref
      return (.handle v, d)
  | update t f, d => do
      let head ← d.head t
      return (.done, ← d.setHead (f head))

/-- What the call adds behind the data. -/
def payload : DataStep → Option Payload
  | alloc p => some p
  | constant p => some p
  | blackboard _ key => some ⟨PlainData.u64.type, by decide, PlainData.u64.encode key⟩
  | node _ ref => some ⟨PlainData.nodeRef.type, by decide, PlainData.nodeRef.encode ref⟩
  | update _ _ => none

/-- The answer when the payload lies at `o`. -/
def reply : DataStep → UInt32 → DataReply
  | alloc _, o => .offset o
  | constant _, o => .handle ⟨Variable.constantId, o⟩
  | blackboard _ _, o => .handle ⟨Variable.blackboardId, o⟩
  | node _ _, o => .handle ⟨Variable.nodeId, o⟩
  | update _ _, _ => .done

/-- The size of the data after the call, from the size before. -/
def room (n : Nat) (c : DataStep) : Nat :=
  match c.payload with
  | some p => alignUp (max n 1) p.type.align + p.type.size
  | none => n

/-- A head of `n` bytes after the call. -/
def onHead {n : Nat} (head : Bytes n) : DataStep → Bytes n
  | update t f => if h : t.size = n then ⟨(f ⟨head.1, head.2.trans h.symm⟩).1, (f _).2.trans h⟩ else head
  | _ => head

end DataStep

structure Answered where
  call : DataStep
  answer : Except Error DataReply

/-- Makes calls one after another. A call that fails changes nothing. -/
def NodeData.assemble (d : NodeData) : List DataStep → List Answered × NodeData
  | [] => ([], d)
  | c :: cs =>
    match c.run d with
    | .ok (r, d') => (d'.assemble cs).map (⟨c, .ok r⟩ :: ·) id
    | .error e => (d.assemble cs).map (⟨c, .error e⟩ :: ·) id

structure Placement where
  payload : Payload
  offset : Nat

namespace Placement

def stop (p : Placement) : Nat := p.offset + p.payload.type.size

/-- The payload lies in `d`, behind the head. -/
structure In (p : Placement) (d : NodeData) : Prop where
  pos : 0 < p.offset
  aligned : p.offset % p.payload.type.align = 0
  headSize_le : d.headSize ≤ p.offset
  stop_le : p.stop ≤ d.size
  bytes : window d.bytes p.offset p.payload.type.size = p.payload.value.1

theorem In.extends {p : Placement} {d d' : NodeData} (h : p.In d) (he : d.Extends d') : p.In d' where
  pos := h.pos
  aligned := h.aligned
  headSize_le := Nat.le_trans (Nat.le_of_eq he.headSize) h.headSize_le
  stop_le := Nat.le_trans h.stop_le he.length
  bytes := (he.window h.headSize_le h.stop_le).trans h.bytes

end Placement

def DataReply.offset? : DataReply → Option UInt32
  | offset o => some o
  | handle v => some v.offset
  | done => none

/-- Where the payload of a call lies, by the answer to it. -/
def Answered.placement : Answered → Option Placement
  | ⟨c, .ok r⟩ => do return ⟨← c.payload, (← r.offset?).toNat⟩
  | ⟨_, .error _⟩ => none

/-- Where payloads lie, in the order of the calls. -/
def placements (log : List Answered) : List Placement := log.filterMap Answered.placement

/-! ## What one call does -/

namespace DataStep

variable {c : DataStep} {p : Payload} {d d' : NodeData} {r : DataReply} {q : Placement} {n : Nat}

theorem run_payload (hp : c.payload = some p) (d : NodeData) :
    c.run d = (fun x => (c.reply x.1, x.2)) <$> d.alloc p.value := by
  cases c with
  | update t f => cases hp
  | alloc p =>
      cases hp
      rw [run]
      cases d.alloc p.value <;> rfl
  | constant p =>
      cases hp
      rw [run, Variable.constant, Variable.alloc]
      cases d.alloc p.value <;> rfl
  | blackboard t key =>
      cases hp
      rw [run, Variable.blackboard, Variable.alloc]
      cases d.alloc (PlainData.u64.encode key) <;> rfl
  | node t ref =>
      cases hp
      rw [run, Variable.node, Variable.alloc]
      cases d.alloc (PlainData.nodeRef.encode ref) <;> rfl

theorem run_eq_ok (hp : c.payload = some p) :
    c.run d = .ok (r, d') ↔ ∃ o, d.alloc p.value = .ok (o, d') ∧ r = c.reply o := by
  rw [run_payload hp]
  cases d.alloc p.value with
  | error e => simp [Functor.map, Except.map]
  | ok x =>
      simp only [Functor.map, Except.map, Except.ok.injEq, Prod.mk.injEq]
      constructor
      · rintro ⟨rfl, rfl⟩
        exact ⟨x.1, rfl, rfl⟩
      · rintro ⟨o, rfl, rfl⟩
        exact ⟨rfl, rfl⟩

theorem run_update {t : ValueType} {f : t.Value → t.Value} (h : (update t f).run d = .ok (r, d')) :
    r = .done ∧ ∃ v : t.Value, d.setHead v = .ok d' := by
  obtain ⟨v, -, h⟩ := Checked.bind_eq_ok.mp h
  obtain ⟨d₁, hset, h⟩ := Checked.bind_eq_ok.mp h
  cases h
  exact ⟨rfl, f v, hset⟩

theorem placement_reply (hp : c.payload = some p) (o : UInt32) :
    Answered.placement ⟨c, .ok (c.reply o)⟩ = some ⟨p, o.toNat⟩ := by
  cases c <;> cases hp <;> rfl

theorem payload_of_placement (h : Answered.placement ⟨c, .ok r⟩ = some q) : c.payload = some q.payload := by
  obtain ⟨p, hp, h⟩ := Option.bind_eq_some_iff.mp h
  obtain ⟨o, -, h⟩ := Option.bind_eq_some_iff.mp h
  cases h
  exact hp

theorem run_extends (h : c.run d = .ok (r, d')) : d.Extends d' := by
  cases hp : c.payload with
  | some p =>
      obtain ⟨o, ha, -⟩ := (run_eq_ok hp).mp h
      exact NodeData.alloc_extends ha
  | none =>
      cases c with
      | update t f =>
          obtain ⟨-, v, hset⟩ := run_update h
          exact NodeData.setHead_extends hset
      | _ => cases hp

/-- The payload of a call lies in the data after it, behind the data before it. -/
theorem run_placement (h : c.run d = .ok (r, d')) (hq : Answered.placement ⟨c, .ok r⟩ = some q) :
    q.In d' ∧ d.size ≤ q.offset := by
  have hp := payload_of_placement hq
  obtain ⟨o, ha, rfl⟩ := (run_eq_ok hp).mp h
  have hq' : (⟨q.payload, o.toNat⟩ : Placement) = q := Option.some.inj ((placement_reply hp o).symm.trans hq)
  rw [← hq']
  have hpos := q.payload.align_pos
  obtain ⟨ho, hhead, -⟩ := NodeData.alloc_eq_ok ha
  obtain ⟨hle, hpos', hstop⟩ := NodeData.alloc_offset hpos ha
  refine ⟨⟨hpos', ?_, ?_, hstop, NodeData.alloc_window hpos ha⟩, hle⟩
  · show o.toNat % q.payload.type.align = 0
    rw [ho, NodeData.nextOffset, alignUp_mod]
  · rw [hhead]
    exact Nat.le_trans d.headSize_le hle

theorem room_of_none (hp : c.payload = none) (n : Nat) : room n c = n := by rw [room, hp]

theorem le_room (n : Nat) (c : DataStep) : n ≤ room n c := by
  unfold room
  split
  · rename_i p _
    have := le_alignUp (max n 1) p.align_pos
    omega
  · exact Nat.le_refl n

/-- While the planned size fits in 32 bits a payload is added, and the size is as planned. -/
theorem run_room (h : room d.size c < UInt32.size) :
    (∀ r d', c.run d = .ok (r, d') → d'.size = room d.size c) ∧
      ∀ e, c.run d = .error e → c.payload = none := by
  cases hp : c.payload with
  | some p =>
      rw [room, hp] at h ⊢
      have hnext : d.nextOffset p.type < UInt32.size := Nat.lt_of_le_of_lt (Nat.le_add_right _ _) h
      obtain ⟨o, d₁, ha⟩ := NodeData.exists_alloc p.value hnext
      rw [run_payload hp, ha]
      refine ⟨fun r d' hrun => ?_, nofun⟩
      cases hrun
      exact NodeData.size_alloc p.align_pos ha
  | none =>
      refine ⟨fun r d' hrun => ?_, fun _ _ => rfl⟩
      cases c with
      | update t f =>
          obtain ⟨-, v, hset⟩ := run_update hrun
          exact NodeData.size_setHead hset
      | _ => cases hp

theorem run_head {head : Bytes n} (hd : d.HasHead head) (c : DataStep) :
    (∀ r d', c.run d = .ok (r, d') → d'.HasHead (c.onHead head)) ∧
      (∀ e, c.run d = .error e → d.HasHead (c.onHead head)) := by
  cases hp : c.payload with
  | some p =>
      have honHead : c.onHead head = head := by cases c <;> cases hp <;> rfl
      rw [honHead]
      refine ⟨fun r d' h => ?_, fun e _ => hd⟩
      obtain ⟨o, ha, -⟩ := (run_eq_ok hp).mp h
      exact hd.alloc ha
  | none =>
      cases c with
      | update t f =>
          by_cases ht : t.size = n
          · obtain ⟨d₁, hset, hd₁⟩ := hd.setHead (f ⟨head.1, head.2.trans ht.symm⟩) ht
            have hrun : (update t f).run d = .ok (.done, d₁) := by
              rw [run, hd.head ht]
              simp only [bind, Except.bind, hset]
              rfl
            rw [onHead, dif_pos ht, hrun]
            refine ⟨fun r d' h => ?_, nofun⟩
            cases h
            exact hd₁
          · rw [onHead, dif_neg ht]
            refine ⟨fun r d' h => ?_, fun _ _ => hd⟩
            obtain ⟨-, v, hset⟩ := run_update h
            exact absurd ((NodeData.setHead_eq_ok hset).1.trans hd.size) ht
      | _ => cases hp

end DataStep

/-! ## What a sequence of calls does -/

namespace NodeData

open DataStep

variable {d : NodeData} {c : DataStep} {cs : List DataStep} {p : Placement} {n : Nat}

theorem assemble_extends (d : NodeData) (cs : List DataStep) : d.Extends (d.assemble cs).2 := by
  fun_induction assemble d cs with
  | case1 d => exact .refl d
  | case2 d c cs r d' hrun ih => exact (run_extends hrun).trans ih
  | case3 d c cs e hrun ih => exact ih

theorem run_of_mem {r : DataReply} (h : ⟨c, .ok r⟩ ∈ (d.assemble cs).1) :
    ∃ d₁ d₂, c.run d₁ = .ok (r, d₂) := by
  fun_induction assemble d cs with
  | case1 d => cases h
  | case2 d c cs r d' hrun ih =>
      rcases List.mem_cons.mp h with h | h
      · cases h
        exact ⟨d, d', hrun⟩
      · exact ih h
  | case3 d c cs e hrun ih =>
      rcases List.mem_cons.mp h with h | h
      · cases h
      · exact ih h

/-- Payloads stay where they were put, behind the data that was there before. -/
theorem placements_in {x : Answered} (hx : x ∈ (d.assemble cs).1) (hp : x.placement = some p) :
    p.In (d.assemble cs).2 ∧ d.size ≤ p.offset := by
  fun_induction assemble d cs with
  | case1 d => cases hx
  | case2 d c cs r d' hrun ih =>
      rcases List.mem_cons.mp hx with rfl | hx
      · obtain ⟨hin, hle⟩ := run_placement hrun hp
        exact ⟨hin.extends (assemble_extends d' cs), hle⟩
      · obtain ⟨hin, hle⟩ := ih hx
        exact ⟨hin, Nat.le_trans (run_extends hrun).length hle⟩
  | case3 d c cs e hrun ih =>
      rcases List.mem_cons.mp hx with rfl | hx
      · cases hp
      · exact ih hx

theorem placements_apart (d : NodeData) (cs : List DataStep) :
    (placements (d.assemble cs).1).Pairwise fun p q => p.stop ≤ q.offset := by
  fun_induction assemble d cs with
  | case1 d => exact .nil
  | case2 d c cs r d' hrun ih =>
      show (placements (_ :: _)).Pairwise _
      cases hp : Answered.placement ⟨c, .ok r⟩ with
      | none =>
          rw [placements, List.filterMap_cons_none hp]
          exact ih
      | some p =>
          rw [placements, List.filterMap_cons_some hp]
          -- all later payloads lie behind the data as this call left it
          refine .cons (fun q hq => ?_) ih
          obtain ⟨x, hx, hq⟩ := List.mem_filterMap.mp hq
          exact Nat.le_trans (run_placement hrun hp).1.stop_le (placements_in hx hq).2
  | case3 d c cs e hrun ih => exact ih

theorem le_foldl_room (cs : List DataStep) (n : Nat) : n ≤ cs.foldl room n := by
  induction cs generalizing n with
  | nil => exact Nat.le_refl n
  | cons c cs ih => exact Nat.le_trans (le_room n c) (ih _)

/-- If the planned size fits in 32 bits, every payload is added and the size is as planned. -/
theorem assemble_room (d : NodeData) (cs : List DataStep) (h : cs.foldl room d.size < UInt32.size) :
    (d.assemble cs).2.size = cs.foldl room d.size ∧
      ∀ x ∈ (d.assemble cs).1, x.call.payload.isSome → ∃ r, x.answer = .ok r := by
  fun_induction assemble d cs with
  | case1 d => exact ⟨rfl, nofun⟩
  | case2 d c cs r d' hrun ih =>
      rw [List.foldl_cons] at h ⊢
      have hroom := (run_room (Nat.lt_of_le_of_lt (le_foldl_room cs _) h)).1 r d' hrun
      rw [← hroom] at h ⊢
      obtain ⟨hsize, hall⟩ := ih h
      refine ⟨hsize, fun x hx hx' => ?_⟩
      rcases List.mem_cons.mp hx with rfl | hx
      · exact ⟨r, rfl⟩
      · exact hall x hx hx'
  | case3 d c cs e hrun ih =>
      rw [List.foldl_cons] at h ⊢
      have hnone := (run_room (Nat.lt_of_le_of_lt (le_foldl_room cs _) h)).2 e hrun
      rw [room_of_none hnone] at h ⊢
      obtain ⟨hsize, hall⟩ := ih h
      refine ⟨hsize, fun x hx hx' => ?_⟩
      rcases List.mem_cons.mp hx with rfl | hx
      · rw [hnone] at hx'
        cases hx'
      · exact hall x hx hx'

theorem assemble_head {head : Bytes n} (hd : d.HasHead head) (cs : List DataStep) :
    (d.assemble cs).2.HasHead (cs.foldl onHead head) := by
  fun_induction assemble d cs generalizing head with
  | case1 d => exact hd
  | case2 d c cs r d' hrun ih => exact ih ((run_head hd c).1 r d' hrun)
  | case3 d c cs e hrun ih => exact ih ((run_head hd c).2 e hrun)

end NodeData

/-! ## Finding payloads in an instance -/

/-- Node `i` of `b` has the data `d`. -/
structure NodeData.At (d : NodeData) (b : Blob) (i : Nat) : Prop where
  lt : i < b.size
  defaults : b.defaults i = d.bytes

theorem NodeData.at_of_build {d : NodeData} {tree : Blueprint} {b : Blob} {i : Nat} {type : TypeId}
    {children : List Blueprint} (hb : tree.build = .ok b)
    (hi : tree.subtrees[i]? = some (.node type d.bytes children)) : d.At b i := by
  have hdraw := (Blueprint.build_draws hb).subtrees i _ hi
  rw [Nat.zero_add] at hdraw
  exact ⟨hdraw.lt, hdraw.data⟩

section

variable {b : Blob} {d : NodeData} {i : Nat} {p : Placement} {rs : Registries} {t : ValueType}

theorem NodeData.At.extent (h : d.At b i) : b.extent i = d.size := by
  rw [← b.length_defaults i, h.defaults, size]

theorem NodeData.At.readAt (h : d.At b i) {o : Nat} {v : t.Value} (hpos : 0 < d.size)
    (hle : o + t.size ≤ d.size) (hv : window d.bytes o t.size = v.1) :
    (Instance.new b).readAt t i o = .ok v := by
  rw [Instance.readAt_eq _ h.lt, Instance.cell_new h.lt, Cell.read, if_neg, dif_pos]
  · exact congrArg Except.ok (Subtype.ext (by rw [← hv, ← h.defaults]))
  · rw [h.defaults]
    exact hle
  · rw [h.defaults]
    exact Nat.ne_of_gt hpos

theorem Placement.In.size_pos (hp : p.In d) : 0 < d.size :=
  Nat.lt_of_lt_of_le hp.pos (Nat.le_trans (Nat.le_add_right _ _) hp.stop_le)

theorem Placement.In.readAt (hp : p.In d) (h : d.At b i) :
    (Instance.new b).readAt p.payload.type i p.offset = .ok p.payload.value :=
  h.readAt hp.size_pos hp.stop_le hp.bytes

theorem Strategy.payload_of_readAt {α : Type} {v : Variable} {s : Instance b} {f : PlainData α} {x : α}
    (hpos : 0 < v.offset.toNat) (h : s.readAt f.type i v.offset.toNat = .ok (f.encode x)) :
    payload v i s f = .ok x := by
  rw [payload, Variable.payloadOffset_eq hpos, Checked.ofExcept_ok, Checked.ok_bind, h, Checked.ok_bind,
    PlainData.decode_encode, Checked.pure_eq]

end

namespace DataStep

/-- What the answer to a call stands for, at node `i` of a new instance. Constants can be changed in place,
in every instance, wherever its memory starts, and whatever they are by then. -/
def Resolves (rs : Registries) (b : Blob) (i : Nat) : DataStep → DataReply → Prop
  | alloc p, .offset o => (Instance.new b).readAt p.type i o.toNat = .ok p.value
  | constant p, .handle v => rs.HasBuiltin p.type →
      (∀ bb, v.read rs p.type i (Instance.new b) bb = .ok p.value) ∧
      ∀ (s : Instance b) a bb f, ∃ x s', v.read rs p.type i s bb = .ok x ∧
        v.modify rs p.type i f s a bb = .ok (s', bb) ∧ v.read rs p.type i s' bb = .ok (f x)
  | blackboard t key, .handle v => rs.HasBuiltin t → ∀ bb,
      v.read rs t i (Instance.new b) bb = Checked.ofBoard (bb.get (.plain t) key)
  | node t ref, .handle v => rs.HasBuiltin t → ∀ bb,
      v.read rs t i (Instance.new b) bb = (Instance.new b).readAt t ref.node.toNat ref.offset.toNat
  | update _ _, .done => True
  | _, _ => False

variable {b : Blob} {d : NodeData} {i : Nat} {c : DataStep} {p : Payload} {o : UInt32}

theorem resolves_of_in (rs : Registries) (h : d.At b i) (hp : c.payload = some p)
    (hin : Placement.In ⟨p, o.toNat⟩ d) : c.Resolves rs b i (c.reply o) := by
  have hread := hin.readAt h
  have hpos := hin.pos
  cases c with
  | update t f => cases hp
  | alloc p =>
      cases hp
      exact hread
  | constant p =>
      cases hp
      intro hrs
      have hvar : ∀ (s : Instance b) bb, Variable.read ⟨Variable.constantId, o⟩ rs p.type i s bb =
          s.readAt p.type i o.toNat := fun s bb => by
        rw [Variable.read, hrs.constant, Checked.ofExcept_ok, Checked.ok_bind, Strategy.read,
          Variable.payloadOffset_eq hpos, Checked.ofExcept_ok, Checked.ok_bind]
      refine ⟨fun bb => (hvar _ bb).trans hread, fun s a bb f => ?_⟩
      obtain ⟨x, s', hx, hs', hfx⟩ := s.exists_modifyAt p.aligned h.lt
        (by rw [h.extent]; exact Nat.ne_of_gt hin.size_pos) (by rw [h.extent]; exact hin.stop_le) hin.aligned f a
      refine ⟨x, s', (hvar s bb).trans hx, ?_, (hvar s' bb).trans hfx⟩
      rw [Variable.modify, hrs.constant, Checked.ofExcept_ok, Checked.ok_bind, Strategy.modify,
        Variable.payloadOffset_eq hpos, Checked.ofExcept_ok, Checked.ok_bind, hs', Checked.ok_bind,
        Checked.pure_eq]
  | blackboard t key =>
      cases hp
      intro hrs bb
      have hkey : Strategy.payload ⟨Variable.blackboardId, o⟩ i (Instance.new b) PlainData.u64 = .ok key :=
        Strategy.payload_of_readAt hpos hread
      rw [Variable.read, hrs.blackboard, Checked.ofExcept_ok, Checked.ok_bind, Strategy.read, hkey,
        Checked.ok_bind]
  | node t ref =>
      cases hp
      intro hrs bb
      have href : Strategy.payload ⟨Variable.nodeId, o⟩ i (Instance.new b) PlainData.nodeRef = .ok ref :=
        Strategy.payload_of_readAt hpos hread
      rw [Variable.read, hrs.node, Checked.ofExcept_ok, Checked.ok_bind, Strategy.read, href,
        Checked.ok_bind]

end DataStep

theorem NodeData.resolves_of_mem {d : NodeData} {calls : List DataStep} {b : Blob} {i : Nat} {c : DataStep}
    {r : DataReply} (h : (d.assemble calls).2.At b i) (hx : ⟨c, .ok r⟩ ∈ (d.assemble calls).1)
    (rs : Registries) : c.Resolves rs b i r := by
  obtain ⟨d₁, d₂, hrun⟩ := run_of_mem hx
  cases hp : c.payload with
  | some p =>
      obtain ⟨o, -, rfl⟩ := (DataStep.run_eq_ok hp).mp hrun
      have hin := (placements_in hx (DataStep.placement_reply hp o)).1
      exact DataStep.resolves_of_in rs h hp hin
  | none =>
      cases c with
      | update t f =>
          obtain ⟨rfl, -⟩ := DataStep.run_update hrun
          trivial
      | _ => cases hp

/-- Whatever calls build the data of a node behind a head, wherever the node stands: the payloads lie apart
from each other and from the head, aligned and never at 0; each handle resolves to what it was made for, and
the head is the one last set. While the planned size fits in 32 bits, no payload is refused. -/
theorem variables_resolve {t₀ : ValueType} (head : t₀.Value) (calls : List DataStep) {tree : Blueprint}
    {b : Blob} {i : Nat} {type : TypeId} {children : List Blueprint} (hb : tree.build = .ok b)
    (hi : tree.subtrees[i]? =
      some (.node type ((NodeData.ofHead head).assemble calls).2.bytes children)) :
    let (log, d) := (NodeData.ofHead head).assemble calls
    (calls.foldl DataStep.room t₀.size < UInt32.size →
      ∀ x ∈ log, x.call.payload.isSome → ∃ r, x.answer = .ok r) ∧
    d.headSize = t₀.size ∧ (∀ p ∈ placements log, p.In d) ∧
    (placements log).Pairwise (fun p q => p.stop ≤ q.offset) ∧
    (∀ c r, ⟨c, .ok r⟩ ∈ log → ∀ rs, c.Resolves rs b i r) ∧
    ∀ t (ht : t.size = t₀.size), 0 < t.size → (Instance.new b).readAt t i 0 =
      .ok ⟨(calls.foldl DataStep.onHead head).1, (calls.foldl DataStep.onHead head).2.trans ht.symm⟩ := by
  have hat := NodeData.at_of_build hb hi
  have hhead := NodeData.assemble_head (NodeData.ofHead_hasHead head) calls
  have hsize : (NodeData.ofHead head).size = t₀.size := head.2
  refine ⟨fun hroom => (NodeData.assemble_room _ calls (hsize ▸ hroom)).2, hhead.size, fun p hp => ?_,
    NodeData.placements_apart _ calls, fun c r hx rs => NodeData.resolves_of_mem hat hx rs,
    fun t ht hpos => ?_⟩
  · obtain ⟨x, hx, hp⟩ := List.mem_filterMap.mp hp
    exact (NodeData.placements_in hx hp).1
  · have hle : 0 + t.size ≤ ((NodeData.ofHead head).assemble calls).2.size := by
      rw [Nat.zero_add, ht, ← hhead.size]
      exact NodeData.headSize_le _
    refine hat.readAt (Nat.lt_of_lt_of_le hpos (Nat.zero_add t.size ▸ hle)) hle ?_
    show _ = (calls.foldl DataStep.onHead head).1
    rw [ht, hhead.bytes]

-- data without a head has the head without bytes
example : NodeData.ofHead (t := ⟨"()", 0, 1⟩) ⟨[], rfl⟩ = .empty := rfl

def ratioCalls : List DataStep :=
  [.constant ⟨.f32, by decide, PlainData.f32.encode ⟨0x3fc00000⟩⟩, .update .u8 fun _ => ⟨[9], rfl⟩]

def ratioHead : ValueType.u8.Value := ⟨[3], rfl⟩

def ratioTree : Blueprint :=
  .node ⟨1⟩ [] [.node ⟨2⟩ ((NodeData.ofHead ratioHead).assemble ratioCalls).2.bytes []]

/-- Behind a head of one byte the number lies at offset 4. -/
theorem variables_resolve_ratio : ∃ b, ratioTree.build = .ok b ∧
    (∀ bb, Variable.read ⟨Variable.constantId, 4⟩ (Registries.empty.registerBuiltin .f32).1 .f32 1
      (Instance.new b) bb = .ok (PlainData.f32.encode ⟨0x3fc00000⟩)) ∧
    (Instance.new b).readAt .u8 1 0 = .ok ⟨[9], rfl⟩ := by
  have hrs : (Registries.empty.registerBuiltin .f32).1.HasBuiltin .f32 :=
    Registries.hasBuiltin_of_registerBuiltin (Prod.ext rfl rfl)
  have hfits : ratioTree.Fits 0 := Blueprint.fits_of_total (by decide)
  obtain ⟨b, hb⟩ := Blueprint.build_eq_ok_iff.mpr ⟨by decide, hfits⟩
  have hi : ratioTree.subtrees[1]? =
      some (.node ⟨2⟩ ((NodeData.ofHead ratioHead).assemble ratioCalls).2.bytes []) := rfl
  obtain ⟨-, -, -, -, hresolve, hhead⟩ := variables_resolve ratioHead ratioCalls hb hi
  exact ⟨b, hb, (hresolve _ _ List.mem_cons_self _ hrs).1, hhead .u8 rfl Nat.one_pos⟩

end BehaviorTree
