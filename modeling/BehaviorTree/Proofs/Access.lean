import BehaviorTree.Access

/-!
# Lists of components as a join-semilattice

What a list tells of a component is the strongest of the declarations that went into it, and the entries are
strictly sorted by name. So lists made from the same declarations are equal, whatever way each was put
together.
-/

namespace BehaviorTree

namespace AccessMode

/-- The strongest mode in which a component is declared. -/
def strongest (us : List ComponentUse) (c : ValueType) : Option AccessMode :=
  if ⟨c, readWrite⟩ ∈ us then some readWrite
  else if ⟨c, readOnly⟩ ∈ us then some readOnly
  else none

instance : Std.Associative AccessMode.max where
  assoc a b c := by cases a <;> rfl

variable {us vs : List ComponentUse} {u : ComponentUse} {c : ValueType}

theorem strongest_nil : strongest [] c = none := rfl

theorem strongest_singleton : strongest [u] c = if u.component = c then some u.mode else none := by
  obtain ⟨c', mode⟩ := u
  cases mode <;> simp [strongest, eq_comm]

theorem strongest_append : strongest (us ++ vs) c = (strongest us c).merge AccessMode.max (strongest vs c) := by
  by_cases hw : ⟨c, readWrite⟩ ∈ us <;> by_cases hr : ⟨c, readOnly⟩ ∈ us <;>
    by_cases hw' : ⟨c, readWrite⟩ ∈ vs <;> by_cases hr' : ⟨c, readOnly⟩ ∈ vs <;>
    simp [strongest, hw, hr, hw', hr', AccessMode.max]

theorem strongest_eq_readWrite : strongest us c = some readWrite ↔ ⟨c, readWrite⟩ ∈ us := by
  by_cases hw : ⟨c, readWrite⟩ ∈ us <;> by_cases hr : ⟨c, readOnly⟩ ∈ us <;> simp [strongest, hw, hr]

theorem strongest_eq_readOnly :
    strongest us c = some readOnly ↔ ⟨c, readOnly⟩ ∈ us ∧ ⟨c, readWrite⟩ ∉ us := by
  by_cases hw : ⟨c, readWrite⟩ ∈ us <;> by_cases hr : ⟨c, readOnly⟩ ∈ us <;> simp [strongest, hw, hr]

theorem strongest_eq_none : strongest us c = none ↔ ∀ mode, ⟨c, mode⟩ ∉ us := by
  constructor
  · intro h mode hmem
    cases mode with
    | readOnly => by_cases hw : ⟨c, readWrite⟩ ∈ us <;> simp [strongest, hw, hmem] at h
    | readWrite => simp [strongest, hmem] at h
  · intro h
    rw [strongest, if_neg (h readWrite), if_neg (h readOnly)]

theorem strongest_congr (h : ∀ v, v ∈ us ↔ v ∈ vs) : strongest us c = strongest vs c := by
  simp only [strongest, h]

theorem merge_assoc (a b c : Option AccessMode) :
    (a.merge AccessMode.max b).merge AccessMode.max c = a.merge AccessMode.max (b.merge AccessMode.max c) :=
  Std.Associative.assoc a b c

end AccessMode

/-- Different components have different names. -/
def NamesDiffer (cs : List ValueType) : Prop := ∀ c ∈ cs, ∀ d ∈ cs, c.name = d.name → c = d

instance (cs : List ValueType) : Decidable (NamesDiffer cs) :=
  inferInstanceAs (Decidable (∀ c ∈ cs, ∀ d ∈ cs, c.name = d.name → c = d))

namespace AccessList

open AccessMode

variable {l m : AccessList} {c : ValueType}

/-! ## The components of a list -/

def Lists (l : AccessList) (c : ValueType) : Prop := c ∈ l.uses.map (·.component)

theorem not_lists_empty : ¬ empty.Lists c := List.not_mem_nil

theorem components_strengthen (u : ComponentUse) : ∀ es : List ComponentUse,
    (strengthen u es).map (·.component) = es.map (·.component)
  | [] => rfl
  | e :: es => by
      rw [strengthen]
      split
      · rfl
      · rw [List.map_cons, List.map_cons, components_strengthen u es]

theorem mem_place (u : ComponentUse) : ∀ es : List ComponentUse,
    c ∈ (place u es).map (·.component) ↔ c = u.component ∨ c ∈ es.map (·.component)
  | [] => by simp [place]
  | e :: es => by
      rw [place]
      split
      · rw [List.map_cons, List.mem_cons, mem_place u es, List.map_cons, List.mem_cons]
        exact or_left_comm
      · simp

/-- An insertion strengthens the entry of a listed component and places that of a new one. -/
theorem insert_cases (l : AccessList) (u : ComponentUse) :
    (l.Lists u.component ∧ l.insert u = ⟨strengthen u l.uses⟩) ∨
      (¬ l.Lists u.component ∧ l.insert u = ⟨place u l.uses⟩) := by
  have hany : l.uses.any (·.component = u.component) ↔ l.Lists u.component := by
    simp [Lists]
  by_cases h : l.Lists u.component
  · exact .inl ⟨h, if_pos (hany.mpr h)⟩
  · exact .inr ⟨h, if_neg fun ht => h (hany.mp ht)⟩

theorem lists_insert (u : ComponentUse) : (l.insert u).Lists c ↔ c = u.component ∨ l.Lists c := by
  obtain ⟨hold, heq⟩ | ⟨-, heq⟩ := l.insert_cases u
  · rw [heq, Lists, components_strengthen]
    exact ⟨.inr, fun h => h.elim (fun hc => hc ▸ hold) id⟩
  · rw [heq]
    exact mem_place u l.uses

theorem lists_extend : ∀ {us : List ComponentUse} {l : AccessList},
    (l.extend us).Lists c ↔ l.Lists c ∨ c ∈ us.map (·.component)
  | [], l => by simp [extend]
  | u :: us, l => by
      have ih : ((l.insert u).extend us).Lists c ↔ (l.insert u).Lists c ∨ c ∈ us.map (·.component) := lists_extend
      rw [lists_insert] at ih
      rw [List.map_cons, List.mem_cons, ← or_assoc, or_comm (a := l.Lists c)]
      exact ih

theorem lists_merge : (l.merge m).Lists c ↔ l.Lists c ∨ m.Lists c := lists_extend

theorem lists_ofList {us : List ComponentUse} : (ofList us).Lists c ↔ c ∈ us.map (·.component) :=
  lists_extend.trans (or_iff_right not_lists_empty)

/-! ## What a list tells of a component -/

theorem modeOf_cons (e : ComponentUse) (es : List ComponentUse) :
    modeOf ⟨e :: es⟩ c = if e.component = c then some e.mode else modeOf ⟨es⟩ c := by
  rw [modeOf, List.find?_cons]
  by_cases h : e.component = c <;> simp [h, modeOf]

theorem modeOf_eq_none : l.modeOf c = none ↔ ¬ l.Lists c := by
  simp [modeOf, Lists]

theorem modeOf_strengthen (u : ComponentUse) : ∀ es : List ComponentUse,
    modeOf ⟨strengthen u es⟩ c =
      if u.component = c then (modeOf ⟨es⟩ c).map (·.max u.mode) else modeOf ⟨es⟩ c
  | [] => by simp [strengthen, modeOf]
  | e :: es => by
      rw [strengthen, modeOf_cons e es]
      by_cases he : e.component = u.component
      · rw [if_pos he, modeOf_cons, he]
        by_cases hc : u.component = c <;> simp [hc]
      · rw [if_neg he, modeOf_cons, modeOf_strengthen u es]
        by_cases hc : u.component = c
        · simp [← hc, he]
        · simp [hc]

theorem modeOf_place (u : ComponentUse) : ∀ es : List ComponentUse, u.component ∉ es.map (·.component) →
    modeOf ⟨place u es⟩ c = if u.component = c then some u.mode else modeOf ⟨es⟩ c
  | [], _ => by rw [place, modeOf_cons]
  | e :: es, hu => by
      rw [List.map_cons, List.mem_cons, not_or] at hu
      rw [place]
      split
      · rw [modeOf_cons, modeOf_place u es hu.2, modeOf_cons]
        by_cases hc : u.component = c
        · simp [← hc, Ne.symm hu.1]
        · simp [hc]
      · rw [modeOf_cons]

theorem modeOf_insert (l : AccessList) (u : ComponentUse) :
    (l.insert u).modeOf c = (l.modeOf c).merge AccessMode.max (strongest [u] c) := by
  rw [strongest_singleton]
  obtain ⟨hold, heq⟩ | ⟨hnew, heq⟩ := l.insert_cases u
  · rw [heq, modeOf_strengthen]
    by_cases hc : u.component = c
    · subst hc
      obtain ⟨mode, hmode⟩ := Option.ne_none_iff_exists'.mp fun h => modeOf_eq_none.mp h hold
      simp [hmode]
    · simp [hc]
  · rw [heq, modeOf_place u _ hnew]
    by_cases hc : u.component = c
    · subst hc
      simp [modeOf_eq_none.mpr hnew]
    · simp [hc]

theorem modeOf_extend : ∀ (us : List ComponentUse) (l : AccessList),
    (l.extend us).modeOf c = (l.modeOf c).merge AccessMode.max (strongest us c)
  | [], l => by simp [extend, strongest_nil]
  | u :: us, l => by
      have ih : ((l.insert u).extend us).modeOf c = _ := modeOf_extend us (l.insert u)
      change ((l.insert u).extend us).modeOf c = _
      rw [ih, modeOf_insert, merge_assoc, ← strongest_append]
      rfl

/-! ## Order by name -/

/-- The entries are strictly sorted by name. -/
def Sorted (l : AccessList) : Prop := l.uses.Pairwise fun e f => e.component.name < f.component.name

theorem Sorted.nodup (h : l.Sorted) : (l.uses.map (·.component)).Nodup := by
  refine List.pairwise_map.mpr (List.Pairwise.imp ?_ h)
  intro e f hlt heq
  rw [heq] at hlt
  exact String.lt_irrefl _ hlt

/-- The entries that an insertion passes over are those with smaller names, the new one stands behind them. -/
theorem place_eq (u : ComponentUse) : ∀ es : List ComponentUse, place u es =
    es.takeWhile (·.component.name < u.component.name) ++
      u :: es.dropWhile (·.component.name < u.component.name)
  | [] => rfl
  | e :: es => by
      rw [place]
      split
      · rename_i hlt
        rw [List.takeWhile_cons_of_pos (by simpa using hlt), List.dropWhile_cons_of_pos (by simpa using hlt),
          List.cons_append, place_eq u es]
      · rename_i hle
        rw [List.takeWhile_cons_of_neg (by simpa using hle), List.dropWhile_cons_of_neg (by simpa using hle)]
        rfl

/-- A sorted list is split by any name: no smaller one follows the first that is not smaller. -/
theorem Sorted.partitioned (h : l.Sorted) (name : String) :
    ∀ e ∈ l.uses.dropWhile (·.component.name < name), ¬ e.component.name < name := by
  obtain ⟨es⟩ := l
  induction es with
  | nil => nofun
  | cons e es ih =>
      obtain ⟨hhead, htail⟩ := List.pairwise_cons.mp h
      by_cases hlt : e.component.name < name
      · rw [List.dropWhile_cons_of_pos (by simpa using hlt)]
        exact ih htail
      · rw [List.dropWhile_cons_of_neg (by simpa using hlt)]
        refine List.forall_mem_cons.mpr ⟨hlt, fun f hf hf' => hlt ?_⟩
        exact String.lt_trans (hhead f hf) hf'

theorem Sorted.place {u : ComponentUse} (h : l.Sorted) (hu : ∀ e ∈ l.uses, e.component.name ≠ u.component.name) :
    Sorted ⟨place u l.uses⟩ := by
  have hsplit : Sorted ⟨l.uses.takeWhile (·.component.name < u.component.name) ++
      l.uses.dropWhile (·.component.name < u.component.name)⟩ := by
    rwa [List.takeWhile_append_dropWhile]
  obtain ⟨htake, hdrop, hacross⟩ := List.pairwise_append.mp hsplit
  rw [Sorted, place_eq]
  refine List.pairwise_append.mpr ⟨htake, List.pairwise_cons.mpr ⟨fun e he => ?_, hdrop⟩, fun e he f hf => ?_⟩
  · have hle := String.not_lt.mp (h.partitioned u.component.name e he)
    have hne := hu e (List.dropWhile_sublist _ |>.mem he)
    exact Decidable.by_contra fun hlt => hne (String.le_antisymm (String.not_lt.mp hlt) hle)
  · rcases List.mem_cons.mp hf with rfl | hf
    · simpa using List.all_eq_true.mp List.all_takeWhile e he
    · exact hacross e he f hf

theorem Sorted.insert {u : ComponentUse} (h : l.Sorted)
    (hu : ∀ c, l.Lists c → c.name = u.component.name → c = u.component) : (l.insert u).Sorted := by
  obtain ⟨-, heq⟩ | ⟨hnew, heq⟩ := l.insert_cases u
  · rw [heq]
    have hnames : (l.uses.map (·.component)).Pairwise fun c d => c.name < d.name := List.pairwise_map.mpr h
    rw [← components_strengthen u] at hnames
    exact List.pairwise_map (f := fun e : ComponentUse => e.component).mp hnames
  · rw [heq]
    refine h.place fun e he hname => hnew ?_
    have hlists : l.Lists e.component := List.mem_map_of_mem he
    exact hu _ hlists hname ▸ hlists

theorem Sorted.extend {cs : List ValueType} (hcs : NamesDiffer cs) : ∀ {us : List ComponentUse} {l : AccessList},
    l.Sorted → (∀ c, l.Lists c → c ∈ cs) → (∀ u ∈ us, u.component ∈ cs) → (l.extend us).Sorted
  | [], _, hl, _, _ => hl
  | u :: us, l, hl, hlists, hus => by
      rw [List.forall_mem_cons] at hus
      have hinsert : (l.insert u).Sorted := hl.insert fun c hc => hcs c (hlists c hc) u.component hus.1
      refine Sorted.extend (l := l.insert u) hcs hinsert (fun c hc => ?_) hus.2
      rcases (lists_insert u).mp hc with rfl | hc
      · exact hus.1
      · exact hlists c hc

theorem Sorted.mem_iff (h : l.Sorted) {e : ComponentUse} : e ∈ l.uses ↔ l.modeOf e.component = some e.mode := by
  have hnodup := h.nodup
  obtain ⟨es⟩ := l
  clear h
  induction es with
  | nil => simp [modeOf]
  | cons f es ih =>
      obtain ⟨hf, hes⟩ := List.nodup_cons.mp hnodup
      rw [List.mem_cons, modeOf_cons]
      by_cases hc : f.component = e.component
      · have hnot : e ∉ es := fun he => hf (List.mem_map.mpr ⟨e, he, hc.symm⟩)
        rw [if_pos hc, or_iff_left hnot, Option.some_inj]
        obtain ⟨c, mode⟩ := e
        obtain ⟨c', mode'⟩ := f
        cases hc
        simp [eq_comm]
      · rw [if_neg hc, or_iff_right fun he : e = f => hc (he ▸ rfl)]
        exact ih hes

/-- A sorted list tells of a component what its entries declare. -/
theorem Sorted.strongest_uses (h : l.Sorted) : strongest l.uses c = l.modeOf c := by
  simp only [strongest, h.mem_iff]
  rcases l.modeOf c with _ | _ | _ <;> rfl

theorem modeOf_merge (hm : m.Sorted) : (l.merge m).modeOf c = (l.modeOf c).merge AccessMode.max (m.modeOf c) := by
  rw [merge, modeOf_extend, hm.strongest_uses]

theorem Sorted.eq_of_modeOf (hl : l.Sorted) (hm : m.Sorted) (h : ∀ c, l.modeOf c = m.modeOf c) : l = m := by
  have hperm : l.uses.Perm m.uses := by
    have hnodup {k : AccessList} (hk : k.Sorted) : k.uses.Nodup :=
      List.Pairwise.of_map _ (fun _ _ => mt (congrArg _)) hk.nodup
    refine (List.perm_ext_iff_of_nodup (hnodup hl) (hnodup hm)).mpr fun e => ?_
    rw [hl.mem_iff, hm.mem_iff, h]
  have heq : l.uses = m.uses := hperm.eq_of_pairwise
    (fun e f _ _ hef hfe => (String.lt_irrefl _ (String.lt_trans hef hfe)).elim) hl hm
  cases l
  cases m
  exact congrArg AccessList.mk heq

end AccessList

/-! ## Ways to put a list together -/

inductive Assembly where
  | empty
  | collect (us : List ComponentUse)
  | insert (a : Assembly) (u : ComponentUse)
  | extend (a : Assembly) (us : List ComponentUse)
  | merge (a b : Assembly)

namespace Assembly

open AccessMode

variable {a b : Assembly} {c : ValueType}

def list : Assembly → AccessList
  | empty => .empty
  | collect us => .ofList us
  | insert a u => a.list.insert u
  | extend a us => a.list.extend us
  | merge a b => a.list.merge b.list

/-- The declarations that went into the list. -/
def declared : Assembly → List ComponentUse
  | empty => []
  | collect us => us
  | insert a u => a.declared ++ [u]
  | extend a us => a.declared ++ us
  | merge a b => a.declared ++ b.declared

theorem lists_list : a.list.Lists c ↔ c ∈ a.declared.map (·.component) := by
  induction a with
  | empty => exact iff_of_false AccessList.not_lists_empty List.not_mem_nil
  | collect us => exact AccessList.lists_ofList
  | insert a u ih => rw [list, AccessList.lists_insert, ih, declared]; simp [or_comm]
  | extend a us ih => rw [list, AccessList.lists_extend, ih, declared, List.map_append, List.mem_append]
  | merge a b iha ihb => rw [list, AccessList.lists_merge, iha, ihb, declared, List.map_append, List.mem_append]

theorem mem_of_lists {cs : List ValueType} (h : ∀ u ∈ a.declared, u.component ∈ cs) (hc : a.list.Lists c) :
    c ∈ cs := by
  obtain ⟨u, hu, rfl⟩ := List.mem_map.mp (lists_list.mp hc)
  exact h u hu

theorem sorted_list {cs : List ValueType} (hcs : NamesDiffer cs) :
    ∀ {a : Assembly}, (∀ u ∈ a.declared, u.component ∈ cs) → a.list.Sorted
  | empty, _ => .nil
  | collect us, h => AccessList.Sorted.extend hcs .nil (fun _ hc => absurd hc AccessList.not_lists_empty) h
  | insert a u, h => by
      have ⟨ha, hu⟩ := List.forall_mem_append.mp h
      refine (sorted_list hcs ha).insert fun c hc => hcs c (mem_of_lists ha hc) u.component ?_
      exact hu u (List.mem_singleton_self u)
  | extend a us, h => by
      have ⟨ha, hus⟩ := List.forall_mem_append.mp h
      exact (sorted_list hcs ha).extend hcs (fun _ => mem_of_lists ha) hus
  | merge a b, h => by
      have ⟨ha, hb⟩ := List.forall_mem_append.mp h
      refine (sorted_list hcs ha).extend hcs (fun _ => mem_of_lists ha) fun u hu => ?_
      exact mem_of_lists hb (List.mem_map_of_mem hu)

theorem modeOf_list {cs : List ValueType} (hcs : NamesDiffer cs) {c : ValueType} :
    ∀ {a : Assembly}, (∀ u ∈ a.declared, u.component ∈ cs) → a.list.modeOf c = strongest a.declared c
  | empty, _ => rfl
  | collect us, _ => by
      rw [list, AccessList.ofList, AccessList.modeOf_extend, declared]
      exact Option.merge_none_left
  | insert a u, h => by
      have ⟨ha, _⟩ := List.forall_mem_append.mp h
      rw [list, AccessList.modeOf_insert, modeOf_list hcs ha, declared, strongest_append]
  | extend a us, h => by
      have ⟨ha, _⟩ := List.forall_mem_append.mp h
      rw [list, AccessList.modeOf_extend, modeOf_list hcs ha, declared, strongest_append]
  | merge a b, h => by
      have ⟨ha, hb⟩ := List.forall_mem_append.mp h
      rw [list, AccessList.modeOf_merge (sorted_list hcs hb), modeOf_list hcs ha, modeOf_list hcs hb, declared,
        strongest_append]

/-- A list does not show how it was put together: repetitions, order and grouping of the declarations leave no
trace. It has one entry for each declared component, strictly sorted by name, with the strongest mode. -/
theorem list_eq_of_declared (hsame : ∀ u, u ∈ a.declared ↔ u ∈ b.declared)
    (hnames : NamesDiffer (a.declared.map (·.component))) :
    a.list = b.list ∧
    a.list.uses.Pairwise (fun e f => e.component.name < f.component.name) ∧
    (a.list.uses.map (·.component)).Nodup ∧
    ∀ c, (a.list.modeOf c = some .readWrite ↔ ⟨c, .readWrite⟩ ∈ a.declared) ∧
      (a.list.modeOf c = some .readOnly ↔ ⟨c, .readOnly⟩ ∈ a.declared ∧ ⟨c, .readWrite⟩ ∉ a.declared) ∧
      (a.list.modeOf c = none ↔ ∀ mode, ⟨c, mode⟩ ∉ a.declared) := by
  have ha : ∀ u ∈ a.declared, u.component ∈ a.declared.map (·.component) := fun u hu => List.mem_map_of_mem hu
  have hb : ∀ u ∈ b.declared, u.component ∈ a.declared.map (·.component) := fun u hu => ha u ((hsame u).mpr hu)
  have hsorted : a.list.Sorted := sorted_list hnames ha
  have hmode (c : ValueType) : a.list.modeOf c = strongest a.declared c := modeOf_list hnames ha
  refine ⟨hsorted.eq_of_modeOf (sorted_list hnames hb) fun c => ?_, hsorted, hsorted.nodup, fun c => ?_⟩
  · rw [hmode, modeOf_list hnames hb, strongest_congr hsame]
  · rw [hmode]
    exact ⟨strongest_eq_readWrite, strongest_eq_readOnly, strongest_eq_none⟩

/-- A component is first read, then written. -/
def gradual : Assembly :=
  (collect [⟨.u8, .readWrite⟩, ⟨.f32, .readOnly⟩]).merge (empty.insert ⟨.f32, .readWrite⟩)

/-- The same declarations in another order, some of them twice. -/
def rearranged : Assembly :=
  (empty.insert ⟨.f32, .readWrite⟩).extend [⟨.f32, .readOnly⟩, ⟨.u8, .readWrite⟩, ⟨.f32, .readOnly⟩]

theorem list_eq_of_declared_gradual :
    NamesDiffer (gradual.declared.map (·.component)) ∧ gradual.list = rearranged.list ∧
      gradual.list.modeOf .f32 = some .readWrite := by
  have hsame : ∀ u, u ∈ gradual.declared ↔ u ∈ rearranged.declared := by
    intro u
    simp only [gradual, rearranged, declared, List.nil_append, List.cons_append, List.mem_cons]
    grind
  have hnames : NamesDiffer (gradual.declared.map (·.component)) := by decide
  obtain ⟨heq, -, -, hmode⟩ := list_eq_of_declared hsame hnames
  exact ⟨hnames, heq, (hmode .f32).1.mpr (by decide)⟩

end Assembly

end BehaviorTree
