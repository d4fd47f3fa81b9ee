import BehaviorTree.Json.Reader
import BehaviorTree.Proofs.Checked
import BehaviorTree.Proofs.Json.Scan

/-!
# Printed values are parsed back

The tokens of a value lead from a place that waits for a value to the place after it. With the scanner, the
printed form of a plain value is parsed to this value. Numbers and records that were made for printing are
read as what they were made of.
-/

namespace BehaviorTree

namespace Json

/-! ## Tokens -/

/-- The tokens lead from one place to the other. -/
def Leads (p : Place) (ts : List Token) (p' : Place) : Prop :=
  ∀ rest, (ts ++ rest).foldlM Place.step p = rest.foldlM Place.step p'

namespace Leads

variable {p p' p'' : Place} {t : Token} {ts ts' : List Token}

theorem refl (p : Place) : Leads p [] p := fun _ => rfl

theorem step (h : p.step t = some p') (h' : Leads p' ts p'') : Leads p (t :: ts) p'' := by
  intro rest
  rw [List.cons_append, List.foldlM_cons, h]
  exact h' rest

theorem last (h : p.step t = some p') : Leads p [t] p' := step h (refl p')

theorem append (h : Leads p ts p') (h' : Leads p' ts' p'') : Leads p (ts ++ ts') p'' := by
  intro rest
  rw [List.append_assoc, h, h' rest]

end Leads

theorem tokens_eq_cons (v : Json) : ∃ t ts, tokens v = t :: ts ∧ t ≠ .closeArray := by
  cases v with
  | null => exact ⟨_, _, rfl, nofun⟩
  | bool b => exact ⟨_, _, rfl, nofun⟩
  | number n => exact ⟨_, _, rfl, nofun⟩
  | string raw => exact ⟨_, _, rfl, nofun⟩
  | array items => cases items <;> exact ⟨_, _, rfl, nofun⟩
  | object fields => cases fields <;> exact ⟨_, _, rfl, nofun⟩

/-- A value right after an opening bracket is the first item. -/
theorem leads_first {v : Json} {stack : List Frame} {p : Place}
    (h : Leads (.value (.array [] :: stack)) (tokens v) p) : Leads (.arrayStart stack) (tokens v) p := by
  obtain ⟨t, ts, hv, ht⟩ := tokens_eq_cons v
  have hstep : Place.step (.arrayStart stack) t = Place.step (.value (.array [] :: stack)) t := by
    cases t <;> first | rfl | exact absurd rfl ht
  rw [hv] at h ⊢
  intro rest
  rw [← h rest, List.cons_append, List.foldlM_cons, List.foldlM_cons, hstep]

mutual

theorem leads_tokens : ∀ (v : Json) (stack : List Frame), Leads (.value stack) (tokens v) (.after v stack)
  | .null, _ => .last rfl
  | .bool _, _ => .last rfl
  | .number _, _ => .last rfl
  | .string _, _ => .last rfl
  | .array [], _ => .step rfl (.last rfl)
  | .array (v :: vs), stack => .step rfl ((leads_first (leads_tokens v _)).append (leads_tokensItems vs [v] stack))
  | .object [], _ => .step rfl (.last rfl)
  | .object (f :: fs), stack =>
    .step rfl (.step rfl (.step rfl ((leads_tokens f.2 _).append (leads_tokensFields fs [f] stack))))

theorem leads_tokensItems : ∀ (vs items : List Json) (stack : List Frame), Leads (.afterItem items stack)
    (tokensItems vs ++ [.closeArray]) (.after (.array (items.reverse ++ vs)) stack)
  | [], items, stack => by
      rw [List.append_nil]
      exact .last rfl
  | v :: vs, items, stack => by
      have hrest := leads_tokensItems vs (v :: items) stack
      rw [List.reverse_cons, List.append_assoc, List.singleton_append] at hrest
      rw [tokensItems, List.cons_append, List.append_assoc]
      exact .step rfl ((leads_tokens v _).append hrest)

theorem leads_tokensFields : ∀ (fs fields : List (List Char × Json)) (stack : List Frame),
    Leads (.afterField fields stack) (tokensFields fs ++ [.closeObject])
      (.after (.object (fields.reverse ++ fs)) stack)
  | [], fields, stack => by
      rw [List.append_nil]
      exact .last rfl
  | f :: fs, fields, stack => by
      have hrest := leads_tokensFields fs (f :: fields) stack
      rw [List.reverse_cons, List.append_assoc, List.singleton_append] at hrest
      rw [tokensFields, List.cons_append, List.cons_append, List.cons_append, List.append_assoc]
      exact .step rfl (.step rfl (.step rfl ((leads_tokens f.2 _).append hrest)))

end

theorem ofTokens?_tokens (v : Json) : ofTokens? (tokens v) = some v := by
  have hlead := leads_tokens v [] []
  rw [List.append_nil] at hlead
  rw [ofTokens?, hlead]
  rfl

/-- What is printed of a plain value is parsed to this value. -/
theorem parse?_pretty {v : Json} (h : v.Plain) (level : Nat) : parse? (pretty level v) = some v := by
  rw [parse?, scan_pretty h level]
  exact ofTokens?_tokens v

theorem parse?_compact {v : Json} (h : v.Plain) : parse? (compact v) = some v := by
  rw [parse?, scan_compact h]
  exact ofTokens?_tokens v

/-! ## Numbers -/

theorem nat?_ofNat {bound n : Nat} (h : n < bound) : (Json.ofNat n).nat? bound = some n := by
  have hall : (Nat.toDigits 10 n).all Char.isDigit := List.all_eq_true.mpr fun c hc =>
    Nat.isDigit_of_mem_toDigits (by decide) (by decide) hc
  have hvalue : decimal (Nat.toDigits 10 n) = n := Nat.ofDigitChars_ten_toDigits
  rw [Json.ofNat, nat?, hvalue, hall, Bool.true_and, if_pos (decide_eq_true h)]

theorem ofNat_injective {n m : Nat} (h : Json.ofNat n = Json.ofNat m) : n = m := by
  have hn : (Json.ofNat n).nat? (n + m + 1) = some n := nat?_ofNat (by omega)
  rw [h, nat?_ofNat (by omega)] at hn
  exact (Option.some.inj hn).symm

/-! ## Records -/

theorem plain_ofFields_zip {names : List String} {vs : List Json} (hplain : ∀ name ∈ names, PlainText name.toList)
    (hvs : ∀ v ∈ vs, v.Plain) : (ofFields (names.zip vs)).Plain := by
  refine plainFields_iff.mpr fun f hf => ?_
  obtain ⟨x, hx, rfl⟩ := List.mem_map.mp hf
  obtain ⟨hname, hvalue⟩ := List.of_mem_zip hx
  exact ⟨hplain x.1 hname, hvs x.2 hvalue⟩

theorem unescape?_of_ne {cs : List Char} (h : ∀ c ∈ cs, c ≠ '\\') : unescape? cs = some cs := by
  induction cs with
  | nil => rfl
  | cons c cs ih =>
      rw [List.forall_mem_cons] at h
      rw [unescape?, ih h.2]
      · rfl
      · exact fun _ _ _ _ _ _ _ _ _ hc => absurd hc h.1
      · exact fun _ _ _ _ _ hc => absurd hc h.1
      · exact fun _ _ hc => absurd hc h.1

theorem fields?_ofFields {fields : List (String × Json)} (h : ∀ f ∈ fields, ∀ c ∈ f.1.toList, c ≠ '\\') :
    (ofFields fields).fields? = some (fields.map fun f => (f.1.toList, f.2)) := by
  rw [ofFields, fields?, List.mapM_map]
  refine mapM_eq_some fun f hf => ?_
  rw [Function.comp_apply, unescape?_of_ne (h f hf)]
  rfl

theorem unique?_of_mem {fields : List (List Char × Json)} (hkeys : fields.Pairwise (·.1 ≠ ·.1))
    {f : List Char × Json} (hf : f ∈ fields) : unique? f.1 fields = some f.2 := by
  have hfilter : fields.filter (·.1 = f.1) = [f] := by
    induction fields with
    | nil => cases hf
    | cons g fields ih =>
        obtain ⟨hg, hkeys⟩ := List.pairwise_cons.mp hkeys
        rcases List.mem_cons.mp hf with rfl | hf
        · rw [List.filter_cons_of_pos (by simp), List.filter_eq_nil_iff.mpr]
          intro x hx
          simpa using (hg x hx).symm
        · rw [List.filter_cons_of_neg (by simpa using hg f hf)]
          exact ih hkeys hf
  rw [unique?, hfilter]

/-- A record is read as the values it was made of. -/
theorem record?_ofFields {fields : List (String × Json)} (hnames : (fields.map Prod.fst).Nodup)
    (hplain : ∀ f ∈ fields, PlainText f.1.toList) :
    (ofFields fields).record? (fields.map Prod.fst) = some (fields.map Prod.snd) := by
  have hkeys : (fields.map fun f => (f.1.toList, f.2)).Pairwise (·.1 ≠ ·.1) :=
    List.pairwise_map.mpr ((List.pairwise_map.mp hnames).imp fun hne heq => hne (String.toList_inj.mp heq))
  have hvalues : (fields.map Prod.fst).mapM (fun name => unique? name.toList (fields.map fun f => (f.1.toList, f.2))) =
      some (fields.map Prod.snd) := by
    rw [List.mapM_map]
    exact mapM_eq_some fun f hf => unique?_of_mem hkeys (List.mem_map_of_mem hf)
  change (fields? _).bind _ = _
  rw [fields?_ofFields fun f hf c hc => (hplain f hf c hc).2.1]
  exact hvalues

theorem record?_ofFields_zip {names : List String} {vs : List Json} (hnames : names.Nodup)
    (hplain : ∀ name ∈ names, PlainText name.toList) (hlen : names.length = vs.length) :
    (ofFields (names.zip vs)).record? names = some vs := by
  have hfst : (names.zip vs).map Prod.fst = names := List.map_fst_zip (Nat.le_of_eq hlen)
  have hsnd : (names.zip vs).map Prod.snd = vs := List.map_snd_zip (Nat.le_of_eq hlen.symm)
  have hread := record?_ofFields (hfst.symm ▸ hnames) fun f hf => hplain f.1 (List.of_mem_zip hf).1
  rwa [hfst, hsnd] at hread

end Json

end BehaviorTree
