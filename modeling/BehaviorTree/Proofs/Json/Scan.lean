import BehaviorTree.Json.Printer
import Mathlib.Data.List.TakeDrop
import Mathlib.Data.List.TakeWhile

/-!
# Printed values are scanned into their tokens

`Spells cs ts`: where a token may start, the characters `cs` are scanned into the tokens `ts`, if what comes
after does not continue a number or a word. Both printed forms of a value spell the tokens of the value.
-/

namespace BehaviorTree

namespace Json

mutual

/-- The tokens of a value. -/
def tokens : Json → List Token
  | .null => [.null]
  | .bool b => [.bool b]
  | .number n => [.number n]
  | .string raw => [.string raw]
  | .array [] => [.openArray, .closeArray]
  | .array (v :: vs) => .openArray :: (tokens v ++ (tokensItems vs ++ [.closeArray]))
  | .object [] => [.openObject, .closeObject]
  | .object (f :: fs) =>
    .openObject :: .string f.1 :: .colon :: (tokens f.2 ++ (tokensFields fs ++ [.closeObject]))

def tokensItems : List Json → List Token
  | [] => []
  | v :: vs => .comma :: (tokens v ++ tokensItems vs)

def tokensFields : List (List Char × Json) → List Token
  | [] => []
  | f :: fs => .comma :: .string f.1 :: .colon :: (tokens f.2 ++ tokensFields fs)

end

/-! ## Values that need no escapes -/

/-- A text that stands between quotes as it is. -/
def PlainText (raw : List Char) : Prop := ∀ c ∈ raw, c ≠ '"' ∧ c ≠ '\\' ∧ 0x20 ≤ c.toNat

instance : DecidablePred PlainText := fun raw => List.decidableBAll _ raw

mutual

/-- The numbers in the value are natural, and its strings need no escapes. -/
def Plain : Json → Prop
  | .null => True
  | .bool _ => True
  | .number n => ∃ k, n = Nat.toDigits 10 k
  | .string raw => PlainText raw
  | .array items => PlainItems items
  | .object fields => PlainFields fields

def PlainItems : List Json → Prop
  | [] => True
  | v :: vs => Plain v ∧ PlainItems vs

def PlainFields : List (List Char × Json) → Prop
  | [] => True
  | f :: fs => PlainText f.1 ∧ Plain f.2 ∧ PlainFields fs

end

theorem plainItems_iff : ∀ {vs : List Json}, PlainItems vs ↔ ∀ v ∈ vs, v.Plain
  | [] => ⟨nofun, fun _ => trivial⟩
  | _ :: _ => (and_congr_right fun _ => plainItems_iff).trans List.forall_mem_cons.symm

theorem plainFields_iff : ∀ {fs : List (List Char × Json)}, PlainFields fs ↔ ∀ f ∈ fs, PlainText f.1 ∧ f.2.Plain
  | [] => ⟨nofun, fun _ => trivial⟩
  | _ :: _ => by
      rw [List.forall_mem_cons, ← plainFields_iff, and_assoc]
      rfl

/-! ## Spelling -/

/-- The text does not go on with a number or a word. -/
def Breaks (rest : List Char) : Prop := ∀ c ∈ rest.head?, isNumberChar c = false ∧ c.isLower = false

def Spells (cs : List Char) (ts : List Token) : Prop :=
  ∀ rest, Breaks rest → scanFrom .between (cs ++ rest) = (scanFrom .between rest).map (ts ++ ·)

variable {c : Char} {cs cs' read raw rest : List Char} {t : Token} {ts ts' : List Token} {mode mode' : ScanMode}

theorem breaks_nil : Breaks [] := nofun

theorem breaks_cons (hc : isNumberChar c = false ∧ c.isLower = false) : Breaks (c :: rest) := by
  rintro _ ⟨⟩
  exact hc

theorem Breaks.append (h : Breaks cs) (hrest : Breaks rest) : Breaks (cs ++ rest) := by
  cases cs with
  | nil => exact hrest
  | cons c cs => exact breaks_cons (h c rfl)

theorem scanFrom_cons (mode : ScanMode) (c : Char) (cs : List Char) : scanFrom mode (c :: cs) =
    (scanStep mode c).bind fun p => (scanFrom p.2 cs).map (p.1 ++ ·) := by
  rw [scanFrom]
  cases scanStep mode c with
  | none => rfl
  | some p =>
      change (scanFrom p.2 cs).bind _ = _
      cases hp : scanFrom p.2 cs with
      | none => simp [hp]
      | some us => simp [hp]

theorem scanFrom_step (h : scanStep mode c = some ([], mode')) (cs : List Char) :
    scanFrom mode (c :: cs) = scanFrom mode' cs := by
  rw [scanFrom_cons, h]
  simp

theorem scanFrom_begin (h : begin? c = some ([], mode)) (cs : List Char) :
    scanFrom .between (c :: cs) = scanFrom mode cs := by
  rw [scanFrom_step]
  exact h

namespace Spells

theorem nil : Spells [] [] := by
  intro rest _
  simp

theorem sign (hc : begin? c = some ([t], .between)) (h : Spells cs ts) : Spells (c :: cs) (t :: ts) := by
  intro rest hrest
  rw [List.cons_append, scanFrom_cons, scanStep, hc, Option.bind_some, h rest hrest, Option.map_map]
  rfl

theorem blank (hc : isBlank c) (h : Spells cs ts) : Spells (c :: cs) ts := by
  intro rest hrest
  have hbegin : begin? c = some ([], .between) := by rw [begin?, if_pos hc]
  rw [List.cons_append, scanFrom_begin hbegin, h rest hrest]

theorem blanks (h : Spells cs ts) : ∀ n, Spells (List.replicate n ' ' ++ cs) ts
  | 0 => h
  | n + 1 => blank rfl (blanks h n)

theorem newLine (h : Spells cs ts) (level : Nat) : Spells (newLine level ++ cs) ts :=
  blank rfl (h.blanks (2 * level))

end Spells

/-! ## Strings -/

theorem scanFrom_string (hraw : PlainText raw) (read rest : List Char) :
    scanFrom (.string read) (raw ++ '"' :: rest) =
      (scanFrom .between rest).map (.string (read.reverse ++ raw) :: ·) := by
  induction raw generalizing read with
  | nil =>
      rw [List.nil_append, scanFrom_cons, List.append_nil]
      rfl
  | cons c raw ih =>
      obtain ⟨⟨hquote, hescape, hcontrol⟩, hraw⟩ := List.forall_mem_cons.mp hraw
      have hstep : scanStep (.string read) c = some ([], .string (c :: read)) := by
        rw [scanStep, if_neg hquote, if_neg hescape, if_neg (by omega)]
      rw [List.cons_append, scanFrom_step hstep, ih hraw, List.reverse_cons, List.append_assoc,
        List.singleton_append]

theorem Spells.quoted (hraw : PlainText raw) (h : Spells cs ts) :
    Spells (quoted raw ++ cs) (.string raw :: ts) := by
  intro rest hrest
  have hopen : scanStep .between '"' = some ([], .string []) := rfl
  rw [Json.quoted, List.cons_append, List.cons_append, List.cons_append, scanFrom_step hopen, List.append_assoc,
    List.append_assoc, List.singleton_append, scanFrom_string hraw, h rest hrest, Option.map_map]
  rfl

/-! ## Numbers and words -/

theorem scanFrom_number (hcs : ∀ c ∈ cs, isNumberChar c) (read rest : List Char) :
    scanFrom (.number read) (cs ++ rest) = scanFrom (.number (cs.reverse ++ read)) rest := by
  induction cs generalizing read with
  | nil => rfl
  | cons c cs ih =>
      rw [List.forall_mem_cons] at hcs
      rw [List.cons_append, scanFrom_step (by rw [scanStep, if_pos hcs.1]), ih hcs.2, List.reverse_cons,
        List.append_assoc, List.singleton_append]

theorem scanFrom_word (hcs : ∀ c ∈ cs, c.isLower) (read rest : List Char) :
    scanFrom (.word read) (cs ++ rest) = scanFrom (.word (cs.reverse ++ read)) rest := by
  induction cs generalizing read with
  | nil => rfl
  | cons c cs ih =>
      rw [List.forall_mem_cons] at hcs
      rw [List.cons_append, scanFrom_step (by rw [scanStep, if_pos hcs.1]), ih hcs.2, List.reverse_cons,
        List.append_assoc, List.singleton_append]

/-- At a break, a number or a word is complete. -/
theorem scanFrom_break (hrest : Breaks rest)
    (hmode : mode = .number read ∧ Token.ofNumber? read.reverse = some t ∨
      mode = .word read ∧ Token.ofWord? read.reverse = some t) :
    scanFrom mode rest = (scanFrom .between rest).map (t :: ·) := by
  cases rest with
  | nil => rcases hmode with ⟨rfl, ht⟩ | ⟨rfl, ht⟩ <;> simp [scanFrom, scanEnd, ht]
  | cons c rest =>
      obtain ⟨hnumber, hword⟩ := hrest c rfl
      have hstep : scanStep mode c = (begin? c).map fun p => (t :: p.1, p.2) := by
        rcases hmode with ⟨rfl, ht⟩ | ⟨rfl, ht⟩
        · simp only [scanStep, hnumber, ht]
          cases begin? c <;> rfl
        · simp only [scanStep, hword, ht]
          cases begin? c <;> rfl
      rw [scanFrom_cons, scanFrom_cons, hstep, scanStep]
      cases begin? c with
      | none => rfl
      | some p => simp [Function.comp_def]

theorem begin?_digit (hc : c.isDigit) : begin? c = some ([], .number [c]) := by
  have hne : ∀ d : Char, d.isDigit = false → c ≠ d := by
    rintro d hd rfl
    rw [hc] at hd
    cases hd
  have hblank : ¬ isBlank c := by
    simp [isBlank, hne ' ' rfl, hne '\t' rfl, hne '\n' rfl, hne '\r' rfl]
  rw [begin?, if_neg hblank, if_neg (hne '"' rfl), if_pos (by simp [hc])]

/-- No number but zero begins with a zero. -/
theorem head?_toDigits {k : Nat} (hk : 0 < k) : (Nat.toDigits 10 k).head? ≠ some '0' := by
  induction k using Nat.strongRecOn with
  | ind k ih =>
      rw [Nat.toDigits_eq_if (by decide)]
      split
      · rw [List.head?_cons, ne_eq, Option.some.injEq, Nat.digitChar_eq_zero]
        omega
      · have hprefix := ih (k / 10) (by omega) (by omega)
        cases hdigits : Nat.toDigits 10 (k / 10) with
        | nil => exact absurd hdigits Nat.toDigits_ne_nil
        | cons c cs =>
            rw [hdigits] at hprefix
            exact hprefix

theorem digits_toDigits (k : Nat) : digits (Nat.toDigits 10 k) = (Nat.toDigits 10 k, []) := by
  have hall : ∀ c ∈ Nat.toDigits 10 k, c.isDigit := fun c hc =>
    Nat.isDigit_of_mem_toDigits (by decide) (by decide) hc
  rw [digits, List.span_eq_takeWhile_dropWhile, List.takeWhile_eq_self_iff.mpr hall,
    List.dropWhile_eq_nil_iff.mpr hall]

theorem isUnsigned_toDigits (k : Nat) : isUnsigned (Nat.toDigits 10 k) := by
  rw [isUnsigned, digits_toDigits]
  split
  · rename_i hnil
    exact absurd (Prod.mk.inj hnil).1 Nat.toDigits_ne_nil
  · rename_i c cs _ hzero
    have hdigits := (Prod.mk.inj hzero).1
    rcases Nat.eq_zero_or_pos k with rfl | hk
    · cases hdigits
    · exact absurd (by rw [hdigits]; rfl) (head?_toDigits hk)
  · rename_i hrest
    rw [← (Prod.mk.inj hrest).2]
    rfl

theorem Spells.number (h : Spells cs ts) (hb : Breaks cs) (k : Nat) :
    Spells (Nat.toDigits 10 k ++ cs) (.number (Nat.toDigits 10 k) :: ts) := by
  intro rest hrest
  have hall : ∀ c ∈ Nat.toDigits 10 k, c.isDigit := fun c hc =>
    Nat.isDigit_of_mem_toDigits (by decide) (by decide) hc
  have hnumber := isUnsigned_toDigits k
  cases hk : Nat.toDigits 10 k with
  | nil => exact absurd hk Nat.toDigits_ne_nil
  | cons d ds =>
      rw [hk] at hall hnumber
      obtain ⟨hd, hds⟩ := List.forall_mem_cons.mp hall
      -- the first digit starts the number, so it is no sign; the others follow it up to the break
      have hsign : isNumber (d :: ds) = isUnsigned (d :: ds) := by
        rw [isNumber]
        rintro _ ⟨⟩
        cases hd
      have htoken : Token.ofNumber? (ds.reverse ++ [d]).reverse = some (.number (d :: ds)) := by
        rw [List.reverse_append, List.reverse_reverse, List.reverse_singleton, List.singleton_append,
          Token.ofNumber?, if_pos (hsign.trans hnumber)]
      rw [List.append_assoc, List.cons_append, scanFrom_begin (begin?_digit hd),
        scanFrom_number (fun c hc => by simp [isNumberChar, hds c hc]),
        scanFrom_break (hb.append hrest) (.inl ⟨rfl, htoken⟩), h rest hrest, Option.map_map]
      rfl

theorem Spells.word (h : Spells cs ts) (hb : Breaks cs) {ds : List Char} (hbegin : begin? c = some ([], .word [c]))
    (hds : ∀ c ∈ ds, c.isLower) (ht : Token.ofWord? (c :: ds) = some t) : Spells (c :: ds ++ cs) (t :: ts) := by
  intro rest hrest
  have htoken : Token.ofWord? (ds.reverse ++ [c]).reverse = some t := by
    rw [List.reverse_append, List.reverse_reverse, List.reverse_singleton, List.singleton_append, ht]
  rw [List.append_assoc, List.cons_append, scanFrom_begin hbegin, scanFrom_word hds,
    scanFrom_break (hb.append hrest) (.inr ⟨rfl, htoken⟩), h rest hrest, Option.map_map]
  rfl

/-! ## Values over several lines -/

theorem breaks_newLine (level : Nat) : Breaks (newLine level ++ cs) := breaks_cons ⟨rfl, rfl⟩

theorem breaks_prettyItems (hb : Breaks cs) (vs : List Json) (level : Nat) : Breaks (prettyItems level vs ++ cs) := by
  cases vs with
  | nil => exact hb
  | cons v vs => exact breaks_cons ⟨rfl, rfl⟩

theorem breaks_prettyFields (hb : Breaks cs) (fs : List (List Char × Json)) (level : Nat) :
    Breaks (prettyFields level fs ++ cs) := by
  cases fs with
  | nil => exact hb
  | cons f fs => exact breaks_cons ⟨rfl, rfl⟩

mutual

theorem spells_pretty : ∀ {v : Json}, v.Plain → ∀ (level : Nat) {cs : List Char} {ts : List Token},
    Spells cs ts → Breaks cs → Spells (pretty level v ++ cs) (tokens v ++ ts)
  | .null, _, _, _, _, h, hb => h.word hb rfl (List.all_eq_true.mp rfl) rfl
  | .bool true, _, _, _, _, h, hb => h.word hb rfl (List.all_eq_true.mp rfl) rfl
  | .bool false, _, _, _, _, h, hb => h.word hb rfl (List.all_eq_true.mp rfl) rfl
  | .number n, ⟨k, hk⟩, _, _, _, h, hb => by
      subst hk
      exact h.number hb k
  | .string raw, hraw, _, _, _, h, _ => h.quoted hraw
  | .array [], _, _, _, _, h, _ => .sign rfl (.sign rfl h)
  | .array (v :: vs), ⟨hv, hvs⟩, level, cs, ts, h, hb => by
      -- from the end: the bracket, the other items, the first one
      have hclose : Spells (newLine level ++ ']' :: cs) (.closeArray :: ts) := .newLine (.sign rfl h) level
      have hitems := spells_prettyItems hvs (level + 1) hclose (breaks_newLine level)
      have hvalue := spells_pretty hv (level + 1) hitems (breaks_prettyItems (breaks_newLine level) vs _)
      simp only [pretty, tokens, List.cons_append, List.append_assoc, List.nil_append]
      exact .sign rfl (hvalue.newLine (level + 1))
  | .object [], _, _, _, _, h, _ => .sign rfl (.sign rfl h)
  | .object (f :: fs), ⟨hkey, hv, hfs⟩, level, cs, ts, h, hb => by
      have hclose : Spells (newLine level ++ '\x7d' :: cs) (.closeObject :: ts) := .newLine (.sign rfl h) level
      have hfields := spells_prettyFields hfs (level + 1) hclose (breaks_newLine level)
      have hvalue := spells_pretty hv (level + 1) hfields (breaks_prettyFields (breaks_newLine level) fs _)
      simp only [pretty, tokens, List.cons_append, List.append_assoc, List.nil_append]
      exact .sign rfl (.newLine (.quoted hkey (.sign rfl (.blank rfl hvalue))) (level + 1))

theorem spells_prettyItems : ∀ {vs : List Json}, PlainItems vs → ∀ (level : Nat) {cs : List Char} {ts : List Token},
    Spells cs ts → Breaks cs → Spells (prettyItems level vs ++ cs) (tokensItems vs ++ ts)
  | [], _, _, _, _, h, _ => h
  | v :: vs, ⟨hv, hvs⟩, level, cs, ts, h, hb => by
      have hvalue := spells_pretty hv level (spells_prettyItems hvs level h hb) (breaks_prettyItems hb vs level)
      simp only [prettyItems, tokensItems, List.cons_append, List.append_assoc]
      exact .sign rfl (hvalue.newLine level)

theorem spells_prettyFields : ∀ {fs : List (List Char × Json)}, PlainFields fs →
    ∀ (level : Nat) {cs : List Char} {ts : List Token},
    Spells cs ts → Breaks cs → Spells (prettyFields level fs ++ cs) (tokensFields fs ++ ts)
  | [], _, _, _, _, h, _ => h
  | f :: fs, ⟨hkey, hv, hfs⟩, level, cs, ts, h, hb => by
      have hvalue := spells_pretty hv level (spells_prettyFields hfs level h hb) (breaks_prettyFields hb fs level)
      simp only [prettyFields, tokensFields, List.cons_append, List.append_assoc]
      exact .sign rfl (.newLine (.quoted hkey (.sign rfl (.blank rfl hvalue))) level)

end

/-- The text of a value is scanned into its tokens. -/
theorem scan_pretty {v : Json} (h : v.Plain) (level : Nat) : scan (pretty level v) = some (tokens v) := by
  have hscan := spells_pretty h level .nil breaks_nil [] breaks_nil
  simpa [scan, scanFrom, scanEnd] using hscan

/-! ## Values without blanks -/

theorem breaks_compactItems (hb : Breaks cs) (vs : List Json) : Breaks (compactItems vs ++ cs) := by
  cases vs with
  | nil => exact hb
  | cons v vs => exact breaks_cons ⟨rfl, rfl⟩

theorem breaks_compactFields (hb : Breaks cs) (fs : List (List Char × Json)) : Breaks (compactFields fs ++ cs) := by
  cases fs with
  | nil => exact hb
  | cons f fs => exact breaks_cons ⟨rfl, rfl⟩

mutual

theorem spells_compact : ∀ {v : Json}, v.Plain → ∀ {cs : List Char} {ts : List Token},
    Spells cs ts → Breaks cs → Spells (compact v ++ cs) (tokens v ++ ts)
  | .null, _, _, _, h, hb => h.word hb rfl (List.all_eq_true.mp rfl) rfl
  | .bool true, _, _, _, h, hb => h.word hb rfl (List.all_eq_true.mp rfl) rfl
  | .bool false, _, _, _, h, hb => h.word hb rfl (List.all_eq_true.mp rfl) rfl
  | .number n, ⟨k, hk⟩, _, _, h, hb => by
      subst hk
      exact h.number hb k
  | .string raw, hraw, _, _, h, _ => h.quoted hraw
  | .array [], _, _, _, h, _ => .sign rfl (.sign rfl h)
  | .array (v :: vs), ⟨hv, hvs⟩, cs, ts, h, hb => by
      have hend : Breaks (']' :: cs) := breaks_cons ⟨rfl, rfl⟩
      have hitems := spells_compactItems hvs (.sign rfl h) hend
      have hvalue := spells_compact hv hitems (breaks_compactItems hend vs)
      simp only [compact, tokens, List.cons_append, List.append_assoc, List.nil_append]
      exact .sign rfl hvalue
  | .object [], _, _, _, h, _ => .sign rfl (.sign rfl h)
  | .object (f :: fs), ⟨hkey, hv, hfs⟩, cs, ts, h, hb => by
      have hend : Breaks ('\x7d' :: cs) := breaks_cons ⟨rfl, rfl⟩
      have hfields := spells_compactFields hfs (.sign rfl h) hend
      have hvalue := spells_compact hv hfields (breaks_compactFields hend fs)
      simp only [compact, tokens, List.cons_append, List.append_assoc, List.nil_append]
      exact .sign rfl (.quoted hkey (.sign rfl hvalue))

theorem spells_compactItems : ∀ {vs : List Json}, PlainItems vs → ∀ {cs : List Char} {ts : List Token},
    Spells cs ts → Breaks cs → Spells (compactItems vs ++ cs) (tokensItems vs ++ ts)
  | [], _, _, _, h, _ => h
  | v :: vs, ⟨hv, hvs⟩, cs, ts, h, hb => by
      have hvalue := spells_compact hv (spells_compactItems hvs h hb) (breaks_compactItems hb vs)
      simp only [compactItems, tokensItems, List.cons_append, List.append_assoc]
      exact .sign rfl hvalue

theorem spells_compactFields : ∀ {fs : List (List Char × Json)}, PlainFields fs →
    ∀ {cs : List Char} {ts : List Token},
    Spells cs ts → Breaks cs → Spells (compactFields fs ++ cs) (tokensFields fs ++ ts)
  | [], _, _, _, h, _ => h
  | f :: fs, ⟨hkey, hv, hfs⟩, cs, ts, h, hb => by
      have hvalue := spells_compact hv (spells_compactFields hfs h hb) (breaks_compactFields hb fs)
      simp only [compactFields, tokensFields, List.cons_append, List.append_assoc]
      exact .sign rfl (.quoted hkey (.sign rfl hvalue))

end

theorem scan_compact {v : Json} (h : v.Plain) : scan (compact v) = some (tokens v) := by
  have hscan := spells_compact h .nil breaks_nil [] breaks_nil
  simpa [scan, scanFrom, scanEnd] using hscan

end Json

end BehaviorTree
