import BehaviorTree.Proofs.Structure.SelfContained

/-!
# Trees that correspond under a renumbering

Two trees with the same running nodes, at places where their nodes have different numbers, tick alike: they
come to the same results, or to failures that differ in the numbers of nodes only. What is recorded for nodes
that are not running has no part in this, so a relation between such records may hold or not; ticks keep it.
-/

namespace BehaviorTree

open Library

/-- The failure of a node `i` as one of node `ρ i`. -/
def Error.renumber (ρ : Nat → Nat) : Error → Error
  | .nodeOutOfRange i len => .nodeOutOfRange (ρ i) len
  | .unallocatedData i => .unallocatedData (ρ i)
  | .dataOutOfBounds i offset len size => .dataOutOfBounds (ρ i) offset len size
  | .misaligned i offset type => .misaligned (ρ i) offset type
  | .unallocatedVariable i id => .unallocatedVariable (ρ i) id
  | .unknownNodeType id i => .unknownNodeType id (ρ i)
  | .indexOutOfRange i len => .indexOutOfRange (ρ i) len
  | .noRunningChild i => .noRunningChild (ρ i)
  | .depthExceeded i max => .depthExceeded (ρ i) max
  | .missingChild i => .missingChild (ρ i)
  | e => e

/-- The results are related, or the failures are the same up to the numbers of nodes. -/
inductive EndsAs (ρ : Nat → Nat) {α β : Type} (R : α → β → Prop) : Except Error α → Except Error β → Prop
  | ok {a : α} {a' : β} : R a a' → EndsAs ρ R (.ok a) (.ok a')
  | error (e : Error) : EndsAs ρ R (.error e) (.error (e.renumber ρ))

namespace EndsAs

variable {ρ : Nat → Nat} {α α' β β' : Type} {R : α → α' → Prop} {S : β → β' → Prop} {x : Except Error α}
  {x' : Except Error α'}

theorem bind {f : α → Except Error β} {f' : α' → Except Error β'} (h : EndsAs ρ R x x')
    (hf : ∀ a a', R a a' → EndsAs ρ S (f a) (f' a')) : EndsAs ρ S (x >>= f) (x' >>= f') := by
  cases h with
  | ok ha => exact hf _ _ ha
  | error e => exact .error e

theorem map {f : α → β} {f' : α' → β'} (h : EndsAs ρ R x x') (hf : ∀ a a', R a a' → S (f a) (f' a')) :
    EndsAs ρ S (x.map f) (x'.map f') := by
  cases h with
  | ok ha => exact .ok (hf _ _ ha)
  | error e => exact .error e

/-- Failures that name no node stay as they are. -/
theorem of_unnumbered (h : ∀ e, x = .error e → e.renumber ρ = e) : EndsAs ρ Eq x x := by
  cases x with
  | ok a => exact .ok rfl
  | error e =>
      have := EndsAs.error (R := @Eq α) (ρ := ρ) e
      rwa [h e rfl] at this

theorem of_board (x : Except BoardError α) : EndsAs ρ Eq (x.mapError Error.board) (x.mapError Error.board) := by
  refine of_unnumbered fun e he => ?_
  cases x with
  | ok a => cases he
  | error err =>
      cases he
      rfl

end EndsAs

/-! ## Cells -/

namespace Cell

variable {ρ : Nat → Nat} {c c' : Cell} {t : ValueType} {i o : Nat}

/-- The same status, and cells with the same bytes. -/
def SameBytes (x x' : Status × Cell) : Prop := x'.1 = x.1 ∧ x'.2.bytes = x.2.bytes

section

variable (h : c'.bytes = c.bytes)

include h

theorem read_endsAs : EndsAs ρ Eq (c.read t i o) (c'.read t (ρ i) o) := by
  obtain ⟨s, bs⟩ := c
  obtain ⟨s', bs'⟩ := c'
  cases h
  unfold read
  split
  · exact .error (.unallocatedData i)
  · split
    · exact .ok rfl
    · exact .error (.dataOutOfBounds i _ _ _)

theorem write_endsAs (v : t.Value) :
    EndsAs ρ (fun x y => y.bytes = x.bytes) (c.write i o v) (c'.write (ρ i) o v) := by
  unfold write
  rw [h]
  split
  · exact .error (.unallocatedData i)
  split
  · exact .error (.dataOutOfBounds i _ _ _)
  split
  · exact .error (.misaligned i _ _)
  · exact .ok rfl

theorem status_endsAs (k : Nat) : EndsAs ρ Eq (c.status i k) (c'.status (ρ i) k) := by
  unfold status
  rw [h]
  split
  · exact .error (.unallocatedData i)
  split
  · refine .of_unnumbered fun e he => ?_
    unfold Status.ofBits at he
    split at he
    · cases he
    · cases he
      rfl
  · exact .error (.dataOutOfBounds i _ _ _)

theorem statuses_endsAs : ∀ ks : List Nat, EndsAs ρ Eq (c.statuses i ks) (c'.statuses (ρ i) ks)
  | [] => .ok rfl
  | k :: ks => (status_endsAs h k).bind fun s s' hs => (statuses_endsAs ks).bind fun ss ss' hss => by
      rw [hs, hss]
      exact .ok rfl

theorem count_endsAs (s : Status) : EndsAs ρ SameBytes (c.count i s) (c'.count (ρ i) s) :=
  (read_endsAs h).bind fun d d' hd => by
    rw [hd]
    exact (write_endsAs h _).bind fun x x' hx => .ok ⟨rfl, hx⟩

theorem override_endsAs (s : Status) : EndsAs ρ SameBytes (c.override i s) (c'.override (ρ i) s) :=
  (status_endsAs h 0).bind fun forced forced' hforced => by
    rw [hforced]
    exact .ok ⟨rfl, h⟩

end

end Cell

/-! ## Variables -/

section Variables

variable {ρ : Nat → Nat} {rs : Registries} {c c' : Cell} {cells cells' : List Cell} {i : Nat} {bb : Blackboard}

theorem readCell_eq (hc : cells[i]? = some c) (t : ValueType) (o : Nat) :
    readCell cells t i o = c.read t i o := by
  rw [readCell, hc]

theorem Registries.strategy_unnumbered {t : ValueType} {id : UInt32} {e : Error}
    (h : rs.strategy t id = .error e) : e.renumber ρ = e := by
  unfold Registries.strategy Registries.registry at h
  cases hr : rs.byType.find? t with
  | none =>
      rw [hr] at h
      cases h
      rfl
  | some r =>
      rw [hr] at h
      change r.strategy id = .error e at h
      unfold Registry.strategy at h
      split at h
      · cases h
      · cases h
        rfl

variable (hc : cells[i]? = some c) (hc' : cells'[ρ i]? = some c') (h : c'.bytes = c.bytes)

include hc hc' h

theorem Variable.lookup_endsAs {v : Variable} {t : ValueType} (hv : rs.strategy t v.id ≠ .ok .node) :
    EndsAs ρ Eq (v.lookup rs t i cells bb) (v.lookup rs t (ρ i) cells' bb) := by
  have hoffset : EndsAs ρ Eq (v.payloadOffset i) (v.payloadOffset (ρ i)) := by
    unfold Variable.payloadOffset
    split
    · exact .ok rfl
    · exact .error (.unallocatedVariable i v.id)
  have hread : ∀ (t : ValueType) o, EndsAs ρ Eq (readCell cells t i o) (readCell cells' t (ρ i) o) := fun t o => by
    rw [readCell_eq hc, readCell_eq hc']
    exact Cell.read_endsAs h
  unfold Variable.lookup
  cases hst : rs.strategy t v.id with
  | error e =>
      have hsame : EndsAs ρ Eq (.error e : Except Error t.Value) (.error e) :=
        .of_unnumbered fun e' he => by cases he; exact Registries.strategy_unnumbered hst
      exact hsame
  | ok st =>
      change EndsAs ρ Eq (st.lookup v i cells bb) (st.lookup v (ρ i) cells' bb)
      cases st with
      | constant => exact hoffset.bind fun o o' ho => ho ▸ hread t o
      | blackboard =>
          have hkey : EndsAs ρ Eq (Strategy.payloadIn v i cells PlainData.u64)
              (Strategy.payloadIn v (ρ i) cells' PlainData.u64) :=
            hoffset.bind fun o o' ho => ho ▸ (hread _ o).bind fun x x' hx => hx ▸ .ok rfl
          exact hkey.bind fun k k' hk => hk ▸ .of_board _
      | node => exact absurd hst hv
      | component comp field mode => exact (EndsAs.of_board _).bind fun x x' hx => hx ▸ .ok rfl

theorem Cell.elapse_endsAs (hown : ∀ v ∈ delayHandles c.bytes, rs.strategy PlainData.f32.type v.id ≠ .ok .node) :
    EndsAs ρ SameBytes (c.elapse i rs cells bb) (c'.elapse (ρ i) rs cells' bb) := by
  have hread : EndsAs ρ Eq (c.read PlainData.delayData.type i 0) (c'.read PlainData.delayData.type (ρ i) 0) :=
    Cell.read_endsAs h
  unfold Cell.elapse
  cases hhead : c.read PlainData.delayData.type i 0 with
  | error e =>
      rw [hhead] at hread
      generalize c'.read PlainData.delayData.type (ρ i) 0 = x' at hread ⊢
      cases hread
      exact .error e
  | ok x =>
      rw [hhead] at hread
      generalize c'.read PlainData.delayData.type (ρ i) 0 = x' at hread ⊢
      cases hread with
      | ok hx =>
          cases hx
          rw [delayHandles_eq (Cell.read_window hhead), List.forall_mem_cons, List.forall_mem_singleton] at hown
          exact (Variable.lookup_endsAs hc hc' h hown.1).bind fun duration duration' hduration =>
            (Variable.lookup_endsAs hc hc' h hown.2).bind fun delta delta' hdelta => by
              rw [hduration, hdelta]
              exact (Cell.write_endsAs h _).bind fun y y' hy => .ok ⟨rfl, hy⟩

end Variables

/-! ## Places -/

/-- The numbering takes the `n` nodes from `p` on to those from `p'` on. -/
def Rigid (ρ : Nat → Nat) (p p' n : Nat) : Prop := ∀ j < n, ρ (p + j) = p' + j

namespace Rigid

variable {ρ : Nat → Nat} {p p' k n : Nat}

theorem first (h : Rigid ρ p p' (k + n)) : Rigid ρ p p' k := fun j hj => h j (by omega)

theorem rest (h : Rigid ρ p p' (k + n)) : Rigid ρ (p + k) (p' + k) n := fun j hj => by
  rw [Nat.add_assoc, h (k + j) (by omega), Nat.add_assoc]

theorem start (h : Rigid ρ p p' (k + n)) (hk : 0 < k) : ρ p = p' := h 0 (by omega)

end Rigid

/-- Trees of height `h` run into the limit alike: they are at one depth, or there is room for both. -/
def RoomAlike (limit depth depth' h : Nat) : Prop :=
  depth' = depth ∨ depth + h ≤ limit ∧ depth' + h ≤ limit

theorem RoomAlike.below {limit depth depth' h k : Nat} (hroom : RoomAlike limit depth depth' (1 + h)) (hk : k ≤ h) :
    RoomAlike limit (depth + 1) (depth' + 1) k := by
  unfold RoomAlike at *
  omega

namespace LiveTree

variable {rs : Registries} {S : Option Status → Option Status → Prop} {ρ : Nat → Nat} {limit depth depth' : Nat}
  {t t' : LiveTree} {ts ts' : List LiveTree} {bb : Blackboard}

/-- The trees are laid out alike and have the same running nodes, whose data is the same and refers to no
other node. The records of all nodes are related. -/
inductive Corresponds (rs : Registries) (S : Option Status → Option Status → Prop) : LiveTree → LiveTree → Prop
  | node {type : TypeId} {defaults : List UInt8} {c c' : Cell} {ts ts' : List LiveTree} :
      (c.state = some .running ∨ c'.state = some .running → c' = c ∧ rs.SelfContained type c.bytes) →
      S c.state c'.state → List.Forall₂ (Corresponds rs S) ts ts' →
      Corresponds rs S (.node type defaults c ts) (.node type defaults c' ts')

namespace Corresponds

theorem shape_eq (t : LiveTree) : ∀ {t' : LiveTree}, Corresponds rs S t t' → t'.shape = t.shape := by
  induction t with
  | node type defaults c ts ih =>
      rintro _ (⟨-, -, hts⟩)
      rw [shape, shape, shapes_of_forall₂ (forall₂_of_mem hts fun t ht t' h => ih t ht h)]

theorem shapes_eq (h : List.Forall₂ (Corresponds rs S) ts ts') : shapeAll ts' = shapeAll ts :=
  shapes_of_forall₂ (h.imp fun t _ => shape_eq t)

theorem mono {S' : Option Status → Option Status → Prop} (hS : ∀ s s', S s s' → S' s s') (t : LiveTree) :
    ∀ {t' : LiveTree}, Corresponds rs S t t' → Corresponds rs S' t t' := by
  induction t with
  | node type defaults c ts ih =>
      rintro _ (⟨hc, hs, hts⟩)
      exact .node hc (hS _ _ hs) (forall₂_of_mem hts fun t ht _ h => ih t ht h)

theorem running_iff (h : Corresponds rs S t t') : t'.cell.state = some .running ↔ t.cell.state = some .running := by
  cases h with
  | node hc _ _ =>
      constructor
      · exact fun hr => (hc (.inr hr)).1 ▸ hr
      · exact fun hr => (hc (.inl hr)).1 ▸ hr

/-- Quiet trees correspond if they are laid out alike and their records are related. -/
theorem of_quiet (t : LiveTree) : ∀ {t' : LiveTree}, t.Quiet → t'.Quiet → t'.shape = t.shape →
    (∀ c ∈ t.cells, ∀ c' ∈ t'.cells, S c.state c'.state) → Corresponds rs S t t' := by
  induction t with
  | node type defaults c ts ih =>
      intro t' hq hq' hshape hS
      obtain ⟨type', defaults', c', ts'⟩ := t'
      rw [shape, shape, Blueprint.node.injEq] at hshape
      obtain ⟨rfl, rfl, hshapes⟩ := hshape
      rw [quiet_node] at hq hq'
      simp only [forall_cells_node] at hS
      have hts := forall₂_of_shapes hshapes fun t ht t' ht' h => ih t ht (hq.2 t ht) (hq'.2 t' ht') h
        fun c hc => (hS.2 t ht c hc).2 t' ht'
      exact .node (fun hrun => absurd hrun (not_or.mpr ⟨hq.1, hq'.1⟩)) hS.1.1 hts

section

variable (hS : ∀ s, S s s)

include hS

theorem of_blank (h : t.Blank) (h' : t'.Blank) (hshape : t'.shape = t.shape) : Corresponds rs S t t' :=
  of_quiet t h.quiet h'.quiet hshape fun c hc c' hc' => by
    rw [h c hc, h' c' hc']
    exact hS none

theorem clear (hshape : t'.shape = t.shape) : Corresponds rs S t.clear t'.clear :=
  of_blank hS (blank_clear t) (blank_clear t') (by rw [shape_clear, shape_clear, hshape])

theorem abort (h : Corresponds rs S t t') : Corresponds rs S t.abort t'.abort := by
  unfold LiveTree.abort
  rw [if_congr h.running_iff rfl rfl]
  split
  · exact clear hS (shape_eq t h)
  · exact h

theorem map_abort (h : List.Forall₂ (Corresponds rs S) ts ts') :
    List.Forall₂ (Corresponds rs S) (ts.map LiveTree.abort) (ts'.map LiveTree.abort) := by
  rw [List.forall₂_map_left_iff, List.forall₂_map_right_iff]
  exact h.imp fun _ _ h => h.abort hS

end

end Corresponds

end LiveTree

/-! ## Ticks -/

/-- Two turns on the same blackboard end alike, with parts that `R` relates; neither changes the blackboard. -/
structure Turn.Corresponds {α τ : Type} (ρ : Nat → Nat) (R : τ → τ → Prop) (bb : Blackboard) (o o' : Turn α τ) :
    Prop where
  answer : EndsAs ρ Eq o.answer o'.answer
  part : R o.part o'.part
  board : o.board = bb
  board' : o'.board = bb

namespace LiveTree

variable {rs : Registries} {S : Option Status → Option Status → Prop} {ρ : Nat → Nat} {limit depth depth' : Nat}
  {ts ts' : List LiveTree} {bb : Blackboard}

/-- The parts of two turns of a node: the same bytes, and children that correspond. -/
def NodeCorresponds (rs : Registries) (S : Option Status → Option Status → Prop) (x x' : Cell × List LiveTree) : Prop :=
  x'.1.bytes = x.1.bytes ∧ List.Forall₂ (Corresponds rs S) x.2 x'.2

theorem own_corresponds {c c' : Cell} {x x' : Except Error (Status × Cell)} (hc : c'.bytes = c.bytes)
    (hts : List.Forall₂ (Corresponds rs S) ts ts') (hx : EndsAs ρ Cell.SameBytes x x') :
    Turn.Corresponds ρ (NodeCorresponds rs S) bb (Turn.own c ts bb x) (Turn.own c' ts' bb x') := by
  cases hx with
  | ok h => exact ⟨.ok h.1.symm, ⟨h.2, hts⟩, rfl, rfl⟩
  | error e => exact ⟨.error e, ⟨hc, hts⟩, rfl, rfl⟩

theorem under_corresponds {α : Type} {c c' : Cell} {o o' : Turn α (List LiveTree)}
    {f f' : α → Except Error (Status × Cell)} (ho : Turn.Corresponds ρ (List.Forall₂ (Corresponds rs S)) bb o o')
    (hc : c'.bytes = c.bytes) (hf : ∀ a, EndsAs ρ Cell.SameBytes (f a) (f' a)) :
    Turn.Corresponds ρ (NodeCorresponds rs S) bb (o.under c f) (o'.under c' f') := by
  obtain ⟨answer, part, board⟩ := o
  obtain ⟨answer', part', board'⟩ := o'
  obtain ⟨hans, hpart, hboard, hboard'⟩ := ho
  cases hboard
  cases hboard'
  cases hans with
  | ok ha =>
      cases ha
      exact own_corresponds hc hpart (hf _)
  | error e => exact ⟨.error e, ⟨hc, hpart⟩, rfl, rfl⟩

/-- A tick of `t` below `depth` others and one of `t'` below `depth'` others go alike at all places that the
numbering takes to one another. -/
def Tracks (rs : Registries) (S : Option Status → Option Status → Prop) (ρ : Nat → Nat) (limit depth depth' : Nat)
    (t t' : LiveTree) : Prop :=
  ∀ cx cx' bb, Rigid ρ cx.index cx'.index t.shape.size → Turn.Corresponds ρ (Corresponds rs S) bb
    (t.tick rs limit depth cx bb) (t'.tick rs limit depth' cx' bb)

section

variable (hS : ∀ s, S s s)

include hS

/-- The end of a tick makes the cells the same. -/
theorem conclude_corresponds (type : TypeId) (defaults : List UInt8) {o o' : Turn Status (Cell × List LiveTree)}
    (ho : Turn.Corresponds ρ (NodeCorresponds rs S) bb o o') (hself : rs.SelfContained type o.part.1.bytes) :
    Turn.Corresponds ρ (Corresponds rs S) bb (o.conclude type defaults) (o'.conclude type defaults) := by
  obtain ⟨answer, ⟨c, ts⟩, board⟩ := o
  obtain ⟨answer', ⟨c', ts'⟩, board'⟩ := o'
  obtain ⟨hans, ⟨hbytes, hts⟩, hboard, hboard'⟩ := ho
  cases hans with
  | ok ha =>
      cases ha
      refine ⟨.ok rfl, .node (fun _ => ⟨Cell.eq_of rfl hbytes, hself⟩) (hS _) hts, hboard, hboard'⟩
  | error e =>
      refine ⟨.error e, Corresponds.clear hS ?_, hboard, hboard'⟩
      rw [shape, shape, Corresponds.shapes_eq hts]

theorem tickWhile_corresponds (keep : Status)
    (h : List.Forall₂ (fun t t' => Corresponds rs S t t' ∧ Tracks rs S ρ limit depth depth' t t') ts ts') :
    ∀ cx cx', Rigid ρ cx.index cx'.index (Blueprint.sizeAll (shapeAll ts)) →
      Turn.Corresponds ρ (List.Forall₂ (Corresponds rs S)) bb (tickWhile rs limit depth keep cx bb ts)
        (tickWhile rs limit depth' keep cx' bb ts') := by
  induction h with
  | nil =>
      intro cx cx' _
      rw [tickWhile, tickWhile]
      exact ⟨.ok rfl, .nil, rfl, rfl⟩
  | @cons t t' ts ts' ht hts ih =>
      intro cx cx' hplace
      rw [shapeAll, Blueprint.sizeAll] at hplace
      have htracks := ht.2 (cx.focus [] (cellsAll ts)) (cx'.focus [] (cellsAll ts')) bb
        (by simpa only [Context.index_focus, List.length_nil, Nat.add_zero] using hplace.first)
      have hshape := shape_tick rs limit depth (cx.focus [] (cellsAll ts)) bb t
      rw [tickWhile, tickWhile]
      generalize t.tick rs limit depth (cx.focus [] (cellsAll ts)) bb = o at htracks hshape ⊢
      generalize t'.tick rs limit depth' (cx'.focus [] (cellsAll ts')) bb = o' at htracks ⊢
      obtain ⟨answer, part, board⟩ := o
      obtain ⟨answer', part', board'⟩ := o'
      obtain ⟨hans, hpart, hboard, hboard'⟩ := htracks
      cases hboard
      cases hboard'
      have hrest : List.Forall₂ (Corresponds rs S) ts ts' := hts.imp fun _ _ h => h.1
      cases hans with
      | error e => exact ⟨.error e, .cons hpart hrest, rfl, rfl⟩
      | ok ha =>
          cases ha
          simp only
          split
          · obtain ⟨hans, hparts, hboard, hboard'⟩ := ih (cx.focus part.cells []) (cx'.focus part'.cells [])
              (by
                rw [Context.index_focus, Context.index_focus, length_cells, length_cells,
                  Corresponds.shape_eq part hpart, hshape]
                exact hplace.rest)
            exact ⟨hans, .cons hpart hparts, hboard, hboard'⟩
          · exact ⟨.ok rfl, .cons hpart (Corresponds.map_abort hS hrest), rfl, rfl⟩

omit hS in
theorem tickSlots_corresponds
    (h : List.Forall₂ (fun t t' => Corresponds rs S t t' ∧ Tracks rs S ρ limit depth depth' t t') ts ts') :
    ∀ cx cx' {c c' : Cell}, c'.bytes = c.bytes → ρ cx.index = cx'.index → ∀ done done' k,
      Rigid ρ (cx.index + (done.length + 1)) (cx'.index + (done'.length + 1)) (Blueprint.sizeAll (shapeAll ts)) →
      Turn.Corresponds ρ (NodeCorresponds rs S) bb (tickSlots rs limit depth cx c done k bb ts)
        (tickSlots rs limit depth' cx' c' done' k bb ts') := by
  induction h with
  | nil =>
      intro cx cx' c c' hc _ done done' k _
      rw [tickSlots, tickSlots]
      exact ⟨.ok rfl, ⟨hc, .nil⟩, rfl, rfl⟩
  | @cons t t' ts ts' ht hts ih =>
      intro cx cx' c c' hc hroot done done' k hplace
      rw [shapeAll, Blueprint.sizeAll] at hplace
      have hrest : List.Forall₂ (Corresponds rs S) ts ts' := hts.imp fun _ _ h => h.1
      have hstatus : EndsAs ρ Eq (c.status cx.index k) (c'.status (ρ cx.index) k) := Cell.status_endsAs hc k
      have hnext : ∀ u u' : LiveTree, u.shape = t.shape → u'.shape = u.shape →
          Rigid ρ (cx.index + ((done ++ u.cells).length + 1)) (cx'.index + ((done' ++ u'.cells).length + 1))
            (Blueprint.sizeAll (shapeAll ts)) := by
        intro u u' hu hu'
        rw [List.length_append, List.length_append, length_cells, length_cells, hu', hu,
          Nat.add_right_comm done.length, Nat.add_right_comm done'.length, ← Nat.add_assoc, ← Nat.add_assoc cx'.index]
        exact hplace.rest
      rw [tickSlots, tickSlots, ← hroot]
      generalize c.status cx.index k = st at hstatus ⊢
      generalize c'.status (ρ cx.index) k = st' at hstatus ⊢
      cases hstatus with
      | error e => exact ⟨.error e, ⟨hc, .cons ht.1 hrest⟩, rfl, rfl⟩
      | ok hs =>
          cases hs
          simp only
          split
          · have htracks := ht.2 (cx.focus (c :: done) (cellsAll ts)) (cx'.focus (c' :: done') (cellsAll ts')) bb
              (by simpa only [Context.index_focus, List.length_cons] using hplace.first)
            have hshape := shape_tick rs limit depth (cx.focus (c :: done) (cellsAll ts)) bb t
            generalize t.tick rs limit depth (cx.focus (c :: done) (cellsAll ts)) bb = o at htracks hshape ⊢
            generalize t'.tick rs limit depth' (cx'.focus (c' :: done') (cellsAll ts')) bb = o' at htracks ⊢
            obtain ⟨answer, part, board⟩ := o
            obtain ⟨answer', part', board'⟩ := o'
            obtain ⟨hans, hpart, hboard, hboard'⟩ := htracks
            cases hboard
            cases hboard'
            cases hans with
            | error e => exact ⟨.error e, ⟨hc, .cons hpart hrest⟩, rfl, rfl⟩
            | ok ha =>
                cases ha
                rename_i s
                have hset : ({ c' with bytes := c'.bytes.set k s.bits } : Cell).bytes =
                    ({ c with bytes := c.bytes.set k s.bits } : Cell).bytes := by rw [hc]
                obtain ⟨hans, hparts, hboard, hboard'⟩ := ih cx cx' hset hroot (done ++ part.cells)
                  (done' ++ part'.cells) (k + 1) (hnext part part' hshape (Corresponds.shape_eq part hpart))
                exact ⟨hans.map fun a a' ha => ha ▸ rfl, ⟨hparts.1, .cons hpart hparts.2⟩, hboard, hboard'⟩
          · obtain ⟨hans, hparts, hboard, hboard'⟩ := ih cx cx' hc hroot (done ++ t.cells) (done' ++ t'.cells) (k + 1)
              (hnext t t' rfl (Corresponds.shape_eq t ht.1))
            exact ⟨hans.map fun a a' ha => ha ▸ rfl, ⟨hparts.1, .cons ht.1 hparts.2⟩, hboard, hboard'⟩

omit hS in
theorem tickFirst_corresponds {i : Nat} {ready ready' : Except Error Unit} (hready : EndsAs ρ Eq ready ready')
    (h : List.Forall₂ (fun t t' => Corresponds rs S t t' ∧ Tracks rs S ρ limit depth depth' t t') ts ts')
    (cx cx' : Context) (hplace : Rigid ρ cx.index cx'.index (Blueprint.sizeAll (shapeAll ts))) :
    Turn.Corresponds ρ (List.Forall₂ (Corresponds rs S)) bb (tickFirst rs limit depth i ready cx bb ts)
      (tickFirst rs limit depth' (ρ i) ready' cx' bb ts') := by
  cases h with
  | nil =>
      rw [tickFirst, tickFirst]
      exact ⟨.error (.missingChild i), .nil, rfl, rfl⟩
  | @cons t t' ts ts' ht hts =>
      rw [shapeAll, Blueprint.sizeAll] at hplace
      have hrest : List.Forall₂ (Corresponds rs S) ts ts' := hts.imp fun _ _ h => h.1
      cases hready with
      | error e =>
          rw [tickFirst, tickFirst]
          exact ⟨.error e, .cons ht.1 hrest, rfl, rfl⟩
      | ok _ =>
          rw [tickFirst, tickFirst]
          obtain ⟨hans, hpart, hboard, hboard'⟩ := ht.2 (cx.focus [] (cellsAll ts)) (cx'.focus [] (cellsAll ts')) bb
            (by simpa only [Context.index_focus, List.length_nil, Nat.add_zero] using hplace.first)
          exact ⟨hans, .cons hpart hrest, hboard, hboard'⟩

omit hS in
theorem activate_corresponds {kind : NodeKind} {defaults : List UInt8} {c c' : Cell}
    (hdefaults : rs.SelfContained kind.typeId defaults)
    (hc : c.state = some .running ∨ c'.state = some .running → c' = c ∧ rs.SelfContained kind.typeId c.bytes) :
    (kind.activate defaults c').bytes = (kind.activate defaults c).bytes ∧
      rs.SelfContained kind.typeId (kind.activate defaults c).bytes := by
  unfold NodeKind.activate
  by_cases hrun : c.state = some .running ∨ c'.state = some .running
  · obtain ⟨rfl, hself⟩ := hc hrun
    have hc' : c'.state = some .running := hrun.elim id id
    rw [if_pos hc']
    exact ⟨rfl, hself⟩
  · rw [not_or] at hrun
    rw [if_neg hrun.1, if_neg hrun.2]
    cases kind with
    | parallel => exact ⟨rfl, .of_ne (by decide) rs _⟩
    | _ => exact ⟨rfl, hdefaults⟩

omit hS in
theorem state_activate (kind : NodeKind) (defaults : List UInt8) (c : Cell) :
    (kind.activate defaults c).state = c.state := by
  unfold NodeKind.activate
  split
  · rfl
  · exact state_reset kind _

/-- A timer does not change its handles, so it refers to no other node afterwards either. -/
theorem delay_corresponds (defaults : List UInt8) {c c' : Cell} (hc : c'.bytes = c.bytes)
    (hts : List.Forall₂ (Corresponds rs S) ts ts')
    (hown : ∀ v ∈ delayHandles c.bytes, rs.strategy PlainData.f32.type v.id ≠ .ok .node) {cx cx' : Context}
    (hroot : ρ cx.index = cx'.index) : Turn.Corresponds ρ (Corresponds rs S) bb
      ((Turn.own c ts bb (c.elapse cx.index rs (cx.plug (c :: cellsAll ts)) bb)).conclude delayId defaults)
      ((Turn.own c' ts' bb (c'.elapse cx'.index rs (cx'.plug (c' :: cellsAll ts')) bb)).conclude delayId defaults) := by
  have helapse : EndsAs ρ Cell.SameBytes (c.elapse cx.index rs (cx.plug (c :: cellsAll ts)) bb)
      (c'.elapse cx'.index rs (cx'.plug (c' :: cellsAll ts')) bb) := by
    rw [← hroot]
    refine Cell.elapse_endsAs (cx.getElem?_plug c _) ?_ hc hown
    rw [hroot]
    exact cx'.getElem?_plug c' _
  refine conclude_corresponds hS _ _ (own_corresponds hc hts helapse) fun _ => ?_
  cases hx : c.elapse cx.index rs (cx.plug (c :: cellsAll ts)) bb with
  | error e => exact hown
  | ok x =>
      change ∀ v ∈ delayHandles x.2.bytes, _
      rw [Cell.elapse_handles hx]
      exact hown

theorem tick_corresponds (t : LiveTree) : ∀ {t' : LiveTree}, Corresponds rs S t t' → t.shape.SelfContained rs →
    ∀ {depth depth' : Nat}, RoomAlike limit depth depth' t.shape.height → Tracks rs S ρ limit depth depth' t t' := by
  induction t with
  | node type defaults c ts ih =>
      rintro _ (⟨hc, hs, hts⟩) hself depth depth' hroom cx cx' bb hplace
      rename_i c' ts'
      rw [shape] at hself hroom hplace
      rw [Blueprint.height] at hroom
      rw [Blueprint.size] at hplace
      obtain ⟨-, hdefaults, hchildren⟩ := hself
      have hroot : ρ cx.index = cx'.index := hplace.start Nat.one_pos
      have hbelow : ∀ a a' : Cell, Rigid ρ (cx.focus [a] []).index (cx'.focus [a'] []).index
          (Blueprint.sizeAll (shapeAll ts)) := fun a a' => by
        rw [Context.index_focus, Context.index_focus]
        exact hplace.rest
      have hkids : List.Forall₂ (fun t t' => Corresponds rs S t t' ∧ Tracks rs S ρ limit (depth + 1) (depth' + 1) t t')
          ts ts' := forall₂_of_mem hts fun t ht t' h => ⟨h, ih t ht h (hchildren _ (shape_mem ht))
          (hroom.below (Blueprint.height_le_heightAll (shape_mem ht)))⟩
      rw [tick, tick]
      cases hkind : NodeKind.ofType? type with
      | none =>
          rw [← hroot]
          exact ⟨.error (.unknownNodeType type cx.index), .node hc hs hts, rfl, rfl⟩
      | some kind =>
          obtain ⟨rfl, -⟩ := NodeKind.ofType?_eq_some hkind
          obtain ⟨hbytes, hown⟩ := activate_corresponds hdefaults hc
          have hstate := state_activate kind defaults c
          have hstate' := state_activate kind defaults c'
          simp only
          generalize kind.activate defaults c = a at hbytes hown hstate ⊢
          generalize kind.activate defaults c' = a' at hbytes hstate' ⊢
          by_cases hdeep : limit ≤ depth
          · have hsame : depth' = depth := by
              unfold RoomAlike at hroom
              omega
            rw [hsame, if_pos hdeep, if_pos hdeep, ← hroot]
            refine ⟨.error (.depthExceeded cx.index limit), .node (fun hrun => ?_) ?_ hts, rfl, rfl⟩
            · rw [hstate, hstate'] at hrun
              exact ⟨Cell.eq_of (by rw [hstate, hstate', (hc hrun).1]) hbytes, hown⟩
            · rw [hstate, hstate']
              exact hs
          have hdeep' : ¬ limit ≤ depth' := by
            unfold RoomAlike at hroom
            omega
          rw [if_neg hdeep, if_neg hdeep']
          cases kind with
          | sequence =>
              refine conclude_corresponds hS _ _ ?_ (.of_ne (by decide) rs _)
              exact under_corresponds (tickWhile_corresponds hS _ hkids _ _ (hbelow a a')) hbytes
                fun s => .ok ⟨rfl, hbytes⟩
          | selector =>
              refine conclude_corresponds hS _ _ ?_ (.of_ne (by decide) rs _)
              exact under_corresponds (tickWhile_corresponds hS _ hkids _ _ (hbelow a a')) hbytes
                fun s => .ok ⟨rfl, hbytes⟩
          | parallel =>
              refine conclude_corresponds hS _ _ ?_ (.of_ne (by decide) rs _)
              have hstatuses : EndsAs ρ Eq (a.statuses cx.index (List.range ts.length))
                  (a'.statuses (ρ cx.index) (List.range ts.length)) := Cell.statuses_endsAs hbytes _
              rw [← hts.length_eq, ← hroot]
              generalize a.statuses cx.index (List.range ts.length) = ss at hstatuses ⊢
              generalize a'.statuses (ρ cx.index) (List.range ts.length) = ss' at hstatuses ⊢
              cases hstatuses with
              | error e => exact ⟨.error e, ⟨hbytes, hts⟩, rfl, rfl⟩
              | ok hss =>
                  cases hss
                  simp only
                  split
                  · obtain ⟨hans, hpart, hboard, hboard'⟩ := tickSlots_corresponds hkids cx cx' hbytes hroot [] [] 0
                      hplace.rest
                    exact ⟨hans.map fun _ _ h => h ▸ rfl, hpart, hboard, hboard'⟩
                  · exact ⟨.error (.noRunningChild cx.index), ⟨hbytes, hts⟩, rfl, rfl⟩
          | repetition =>
              refine conclude_corresponds hS _ _ ?_ (.of_ne (by decide) rs _)
              rw [← hroot]
              exact under_corresponds (tickFirst_corresponds (.ok rfl) hkids _ _ (hbelow a a')) hbytes
                fun s => Cell.count_endsAs hbytes s
          | inverter =>
              refine conclude_corresponds hS _ _ ?_ (.of_ne (by decide) rs _)
              rw [← hroot]
              exact under_corresponds (tickFirst_corresponds (.ok rfl) hkids _ _ (hbelow a a')) hbytes
                fun s => .ok ⟨rfl, hbytes⟩
          | force =>
              refine conclude_corresponds hS _ _ ?_ (.of_ne (by decide) rs _)
              have hready : EndsAs ρ Eq ((a.status cx.index 0).map fun _ => ())
                  ((a'.status (ρ cx.index) 0).map fun _ => ()) := (Cell.status_endsAs hbytes 0).map fun _ _ _ => rfl
              rw [← hroot]
              exact under_corresponds (tickFirst_corresponds hready hkids _ _ (hbelow a a')) hbytes
                fun s => Cell.override_endsAs hbytes s
          | fixed =>
              refine conclude_corresponds hS _ _ ?_ (.of_ne (by decide) rs _)
              rw [← hroot]
              exact ⟨Cell.status_endsAs hbytes 0, ⟨hbytes, hts⟩, rfl, rfl⟩
          | delay => exact delay_corresponds hS _ hbytes hts (hown rfl) hroot

/-- Loops over children that correspond end alike. -/
theorem children_correspond (keep : Status) (h : List.Forall₂ (Corresponds rs S) ts ts')
    (hself : ∀ t ∈ shapeAll ts, t.SelfContained rs)
    (hroom : ∀ t ∈ shapeAll ts, RoomAlike limit depth depth' t.height) (cx cx' : Context)
    (hplace : Rigid ρ cx.index cx'.index (Blueprint.sizeAll (shapeAll ts))) (bb : Blackboard) :
    Turn.Corresponds ρ (List.Forall₂ (Corresponds rs S)) bb (tickWhile rs limit depth keep cx bb ts)
      (tickWhile rs limit depth' keep cx' bb ts') := by
  refine tickWhile_corresponds hS keep (forall₂_of_mem h fun t ht t' htt => ⟨htt, ?_⟩) cx cx' hplace
  exact tick_corresponds hS t htt (hself _ (shape_mem ht)) (hroom _ (shape_mem ht))

end

end LiveTree

end BehaviorTree
