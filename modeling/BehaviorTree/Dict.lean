/-!
Finite maps with at most one entry per key, in the order of first insertion. The type of a value may
depend on its key. Main statements: what `find?` gives after `insert`, `erase` and `modify`.
-/
namespace BehaviorTree

/-- A finite map from keys `k : κ` to values of `β k`. -/
structure Dict (κ : Type) (β : κ → Type) where
  entries : List ((k : κ) × β k)
  nodup : (entries.map (·.1)).Nodup := by simp

namespace Dict

variable {κ : Type} {β : κ → Type} [DecidableEq κ]

def empty : Dict κ β := ⟨[], by simp⟩

def keys (d : Dict κ β) : List κ := d.entries.map (·.1)

def size (d : Dict κ β) : Nat := d.entries.length

def isEmpty (d : Dict κ β) : Bool := d.entries.isEmpty

def find?.go (k : κ) : List ((k : κ) × β k) → Option (β k)
  | [] => none
  | ⟨k', v⟩ :: rest => if h : k' = k then some (h ▸ v) else find?.go k rest

def find? (d : Dict κ β) (k : κ) : Option (β k) := find?.go k d.entries

def contains (d : Dict κ β) (k : κ) : Bool := (d.find? k).isSome

/-- Replaces the value under `k`, or adds an entry at the end. -/
def insert.go (k : κ) (v : β k) : List ((k : κ) × β k) → List ((k : κ) × β k)
  | [] => [⟨k, v⟩]
  | e :: rest => if e.1 = k then ⟨k, v⟩ :: rest else e :: insert.go k v rest

theorem insert.mem_keys_go {k k' : κ} {v : β k} {es : List ((k : κ) × β k)}
    (h : k' ∈ (insert.go k v es).map (·.1)) : k' = k ∨ k' ∈ es.map (·.1) := by
  induction es with
  | nil => simpa [insert.go] using h
  | cons e es ih =>
    rw [insert.go] at h
    split at h
    · rename_i he
      simpa [he] using h
    · rw [List.map_cons, List.mem_cons] at h ⊢
      rcases h with h | h
      · exact .inr (.inl h)
      · exact (ih h).imp_right .inr

theorem insert.nodup_go (k : κ) (v : β k) {es : List ((k : κ) × β k)}
    (h : (es.map (·.1)).Nodup) : ((insert.go k v es).map (·.1)).Nodup := by
  induction es with
  | nil => simp [insert.go]
  | cons e es ih =>
    rw [List.map_cons, List.nodup_cons] at h
    rw [insert.go]
    split
    · rename_i he
      rw [List.map_cons, List.nodup_cons]
      exact ⟨he ▸ h.1, h.2⟩
    · rename_i he
      rw [List.map_cons, List.nodup_cons]
      refine ⟨fun hm => ?_, ih h.2⟩
      rcases insert.mem_keys_go hm with heq | hm
      · exact he heq
      · exact h.1 hm

def insert (d : Dict κ β) (k : κ) (v : β k) : Dict κ β :=
  ⟨insert.go k v d.entries, insert.nodup_go k v d.nodup⟩

def erase (d : Dict κ β) (k : κ) : Dict κ β :=
  ⟨d.entries.filter (fun e => e.1 ≠ k), d.nodup.sublist (List.filter_sublist.map _)⟩

@[simp] theorem find?_empty (k : κ) : (empty : Dict κ β).find? k = none := rfl

@[simp] theorem find?_insert_self (d : Dict κ β) (k : κ) (v : β k) :
    (d.insert k v).find? k = some v := by
  obtain ⟨es, h⟩ := d
  change find?.go k (insert.go k v es) = some v
  clear h
  induction es with
  | nil => simp [insert.go, find?.go]
  | cons e es ih =>
    rw [insert.go]
    split
    · simp [find?.go]
    · rename_i he
      rw [find?.go, dif_neg he, ih]

theorem find?_insert_of_ne (d : Dict κ β) {k k' : κ} (v : β k) (hk : k ≠ k') :
    (d.insert k v).find? k' = d.find? k' := by
  obtain ⟨es, h⟩ := d
  change find?.go k' (insert.go k v es) = find?.go k' es
  clear h
  induction es with
  | nil => simp [insert.go, find?.go, hk]
  | cons e es ih =>
    rw [insert.go]
    split
    · rename_i he
      rw [find?.go, find?.go, dif_neg hk, dif_neg (he ▸ hk)]
    · rw [find?.go, find?.go, ih]

/-- To put the value back that is there changes nothing. -/
theorem insert_of_find? {d : Dict κ β} {k : κ} {v : β k} (h : d.find? k = some v) : d.insert k v = d := by
  obtain ⟨es, hes⟩ := d
  change find?.go k es = some v at h
  suffices hgo : insert.go k v es = es by simp only [insert, hgo]
  clear hes
  induction es with
  | nil => cases h
  | cons e es ih =>
    obtain ⟨k', v'⟩ := e
    rw [find?.go] at h
    rw [insert.go]
    split at h
    · rename_i hk
      subst hk
      cases h
      exact if_pos rfl
    · rename_i hk
      rw [if_neg hk, ih h]

@[simp] theorem find?_erase_self (d : Dict κ β) (k : κ) : (d.erase k).find? k = none := by
  obtain ⟨es, h⟩ := d
  change find?.go k (es.filter _) = none
  clear h
  induction es with
  | nil => rfl
  | cons e es ih =>
    by_cases he : e.1 = k
    · rw [List.filter_cons_of_neg (by simp [he]), ih]
    · rw [List.filter_cons_of_pos (by simp [he]), find?.go, dif_neg he, ih]

theorem find?_erase_of_ne (d : Dict κ β) {k k' : κ} (hk : k ≠ k') :
    (d.erase k).find? k' = d.find? k' := by
  obtain ⟨es, h⟩ := d
  change find?.go k' (es.filter _) = find?.go k' es
  clear h
  induction es with
  | nil => rfl
  | cons e es ih =>
    by_cases he : e.1 = k
    · rw [List.filter_cons_of_neg (by simp [he]), ih, find?.go, dif_neg (he ▸ hk)]
    · rw [List.filter_cons_of_pos (by simp [he]), find?.go, find?.go, ih]

theorem find?_isSome_iff {d : Dict κ β} {k : κ} : (d.find? k).isSome ↔ k ∈ d.keys := by
  obtain ⟨es, h⟩ := d
  change (find?.go k es).isSome ↔ k ∈ es.map (·.1)
  clear h
  induction es with
  | nil => simp [find?.go]
  | cons e es ih =>
    rw [find?.go, List.map_cons, List.mem_cons, ← ih]
    split
    · rename_i he; simp [he]
    · rename_i he; simp [Ne.symm he]

instance : EmptyCollection (Dict κ β) := ⟨empty⟩

end Dict
end BehaviorTree
