import BehaviorTree.Proofs.Blackboard
import BehaviorTree.Proofs.Library.Composed
import BehaviorTree.Proofs.Run.Access

/-!
# Timers with data of their own

A tick of a timer changes the last four bytes of its head. Its handles stay what they were in the default
data, so all it needs from outside are the blackboard values under their keys.
-/

namespace BehaviorTree

/-! ## The head of a timer -/

namespace PlainData

theorem delayData_handles {x y : delayData.type.Value} (h : x.1.take 16 = y.1.take 16) :
    (delayData.decode x).duration = (delayData.decode y).duration ∧
      (delayData.decode x).delta = (delayData.decode y).delta := by
  have hfirst : Bytes.first (m := 16) (n := 4) x = Bytes.first (m := 16) (n := 4) y := Subtype.ext h
  exact ⟨congrArg (fun z => handle.decode (Bytes.first (m := 8) (n := 8) z)) hfirst,
    congrArg (fun z => handle.decode (Bytes.last (m := 8) (n := 8) z)) hfirst⟩

theorem take_encode_delayData (x : delayData.type.Value) (elapsed : Single) :
    (delayData.encode { delayData.decode x with elapsed }).1.take 16 = x.1.take 16 := by
  have henc : (delayData.encode { delayData.decode x with elapsed }).1 =
      ((pair handle handle).encode ((pair handle handle).decode (Bytes.first (n := 4) x))).1 ++
        (f32.encode elapsed).1 := rfl
  rw [henc, encode_decode]
  exact List.take_left' (Bytes.first (m := 16) (n := 4) x).2

end PlainData

/-! ## Variables -/

/-- The strategies that the constructors of timers rely on are those of the library. -/
structure Registries.BuiltinSingles (rs : Registries) : Prop where
  constant : rs.strategy PlainData.f32.type Variable.constantId = .ok .constant
  blackboard : rs.strategy PlainData.f32.type Variable.blackboardId = .ok .blackboard

/-- The bytes `bs` of a timer are as in its default data `ds`, but for the time elapsed. -/
structure SameTimer (ds bs : List UInt8) : Prop where
  length : bs.length = ds.length
  byte : ∀ k : Nat, k < 16 ∨ 20 ≤ k → bs[k]? = ds[k]?

namespace SameTimer

variable {ds bs : List UInt8}

theorem refl (ds : List UInt8) : SameTimer ds ds := ⟨rfl, fun _ _ => rfl⟩

theorem window_eq (h : SameTimer ds bs) {o n : Nat} (ho : o + n ≤ 16 ∨ 20 ≤ o) :
    window bs o n = window ds o n := by
  apply List.ext_getElem?
  intro k
  rw [getElem?_window, getElem?_window]
  split
  · exact h.byte _ (by omega)
  · rfl

theorem overlay (h : SameTimer ds bs) {head : PlainData.delayData.type.Value} (hlen : 20 ≤ bs.length)
    (hhead : head.1.take 16 = bs.take 16) : SameTimer ds (BehaviorTree.overlay bs 0 head.1) := by
  have hsize : head.1.length = 20 := head.2
  refine ⟨by rw [length_overlay (by omega), h.length], fun k hk => ?_⟩
  rw [getElem?_overlay (Nat.zero_le _), ← h.byte k hk]
  rcases hk with hk | hk
  · rw [if_pos (by omega), Nat.sub_zero]
    have hat := congrArg (·[k]?) hhead
    simpa only [List.getElem?_take, hk, ↓reduceIte] using hat
  · rw [if_neg (by omega)]

end SameTimer

namespace Variable

variable {b : Blob} {rs : Registries} {v : Variable} {i : Nat}

/-- The key of a blackboard handle, in the bytes around its payload. -/
def HasKey (v : Variable) (bs : List UInt8) (key : UInt64) : Prop :=
  v.id = blackboardId ∧ window bs v.offset.toNat 8 = (PlainData.u64.encode key).1

theorem read_error (hrs : rs.BuiltinSingles) {s : Instance b} (hi : i < b.size) {bb : Blackboard}
    (hfit : v.Fits 20 (s.cell i).bytes) {e : Fault} (h : v.read rs PlainData.f32.type i s bb = .error e) :
    ∃ key, v.HasKey (s.cell i).bytes key ∧
      (e = .error (.board (.missingKey key)) ∨ e = .error (.board (.typeMismatch key "f32"))) := by
  have hoff := payloadOffset_eq hfit.pos i
  obtain ⟨hid, hlen⟩ | ⟨hid, hlen⟩ := hfit.payload
  · rw [Variable.read, hid, hrs.constant, Checked.ofExcept_ok, Checked.ok_bind, Strategy.read, hoff,
      Checked.ofExcept_ok, Checked.ok_bind, Instance.readAt_eq s hi,
      Cell.read_eq_ok (by decide) hlen] at h
    cases h
  · have hread := Cell.read_eq_ok (c := s.cell i) (t := PlainData.u64.type) (i := i) (by decide) hlen
    rw [Variable.read, hid, hrs.blackboard, Checked.ofExcept_ok, Checked.ok_bind, Strategy.read,
      Strategy.payload, hoff, Checked.ofExcept_ok, Checked.ok_bind, Instance.readAt_eq s hi, hread,
      Checked.ofExcept_ok, Checked.ok_bind, Checked.pure_eq, Checked.ok_bind] at h
    refine ⟨PlainData.u64.decode ⟨_, length_window hlen⟩, ⟨hid, by rw [PlainData.encode_decode]; rfl⟩, ?_⟩
    cases hget : bb.get (.plain PlainData.f32.type)
        (PlainData.u64.decode ⟨window (s.cell i).bytes v.offset.toNat PlainData.u64.type.size,
          length_window hlen⟩) with
    | ok x =>
        rw [hget] at h
        cases h
    | error err =>
        rw [hget] at h
        cases h
        exact (Blackboard.get_error hget).imp (congrArg fun x => Fault.error (.board x))
          (congrArg fun x => Fault.error (.board x))

end Variable

namespace Library

variable {b : Blob} {w : World b} {rs : Registries} {i : Nat}

/-- The blackboard key of a handle of a timer with default data `ds`. -/
def TimerKey (ds : List UInt8) (key : UInt64) : Prop :=
  ∃ (head : PlainData.delayData.type.Value) (v : Variable), window ds 0 20 = head.1 ∧
    (v = (PlainData.delayData.decode head).duration ∨ v = (PlainData.delayData.decode head).delta) ∧
    v.HasKey ds key

/-- No number is on the blackboard under a key of the timer. -/
def TimerFault (ds : List UInt8) (e : Fault) : Prop :=
  ∃ key, TimerKey ds key ∧
    (e = .error (.board (.missingKey key)) ∨ e = .error (.board (.typeMismatch key "f32")))

theorem timerFault_of_read (hrs : rs.BuiltinSingles) (hi : i < b.size)
    (htimer : Blueprint.TimerData (b.defaults i)) (hsame : SameTimer (b.defaults i) (w.inst.cell i).bytes)
    {head : PlainData.delayData.type.Value} (hhead : window (w.inst.cell i).bytes 0 20 = head.1) {v : Variable}
    (hv : v = (PlainData.delayData.decode head).duration ∨ v = (PlainData.delayData.decode head).delta)
    {e : Fault} (he : v.read rs PlainData.f32.type i w.inst w.board = .error e) :
    TimerFault (b.defaults i) e := by
  -- the head in the default data has the same handles
  obtain ⟨dhead, hdhead⟩ : ∃ dhead : PlainData.delayData.type.Value, window (b.defaults i) 0 20 = dhead.1 :=
    ⟨⟨_, length_window (show 0 + 20 ≤ _ by have := htimer.length; omega)⟩, rfl⟩
  have hsixteen : head.1.take 16 = dhead.1.take 16 := by
    rw [← hhead, ← hdhead, window, window, List.drop_zero, List.drop_zero, List.take_take, List.take_take]
    exact hsame.window_eq (o := 0) (n := 16) (Or.inl (Nat.le_refl 16))
  obtain ⟨hdur, hdel⟩ := PlainData.delayData_handles hsixteen
  rw [hdur, hdel] at hv
  have hfit : v.Fits 20 (b.defaults i) := by
    rcases hv with rfl | rfl
    · exact (htimer.fits dhead hdhead).1
    · exact (htimer.fits dhead hdhead).2
  obtain ⟨key, hkey, he⟩ := Variable.read_error hrs hi (hfit.of_length hsame.length) he
  refine ⟨key, ⟨dhead, v, hdhead, hv, hkey.1, ?_⟩, he⟩
  rw [← hsame.window_eq (Or.inr hfit.start)]
  exact hkey.2

/-- A timer whose default data is in order keeps its handles, and only their keys can make it fail. -/
theorem delay_yields (hrs : rs.BuiltinSingles) (hi : i < b.size) (htimer : Blueprint.TimerData (b.defaults i))
    (hsame : SameTimer (b.defaults i) (w.inst.cell i).bytes) (cb : Callbacks b) :
    (delay.tick rs cb i).Yields w fun r w' => SameTimer (b.defaults i) (w'.inst.cell i).bytes ∧
      ∀ e, r = .error e → TimerFault (b.defaults i) e := by
  have hlen : 0 + PlainData.delayData.type.size ≤ (w.inst.cell i).bytes.length :=
    hsame.length ▸ htimer.length
  have hread := Cell.read_eq_ok (c := w.inst.cell i) (t := PlainData.delayData.type) (i := i) (by decide) hlen
  generalize hhead : (⟨_, length_window hlen⟩ : PlainData.delayData.type.Value) = head at hread
  have hwin : window (w.inst.cell i).bytes 0 20 = head.1 := congrArg Subtype.val hhead
  have hdecode : Checked.ofExcept (PlainData.delayData.decode <$> (.ok head : Except Error _)) =
      .ok (PlainData.delayData.decode head) := rfl
  simp only [delay, readSingle, Run.yields_bind, Run.readHead_yields hi, Run.yields_inst, Run.yields_board,
    Run.yields_lift, Run.yields_pure, hread, hdecode]
  cases h₁ : (PlainData.delayData.decode head).duration.read rs PlainData.f32.type i w.inst w.board with
  | error e =>
      refine ⟨hsame, fun e' he => ?_⟩
      cases he
      exact timerFault_of_read hrs hi htimer hsame hwin (Or.inl rfl) h₁
  | ok duration =>
      simp only []
      cases h₂ : (PlainData.delayData.decode head).delta.read rs PlainData.f32.type i w.inst w.board with
      | error e =>
          refine ⟨hsame, fun e' he => ?_⟩
          cases he
          exact timerFault_of_read hrs hi htimer hsame hwin (Or.inr rfl) h₂
      | ok delta =>
          refine (Run.writeHead_yields hi .delayData ⟨2, rfl⟩ _).mono fun r w' hput => ?_
          rw [Cell.write_eq_ok (by decide) hlen (Nat.zero_mod _)] at hput
          obtain ⟨rfl, hset, -⟩ := hput
          refine ⟨?_, fun e he => by cases he⟩
          rw [hset.self]
          refine hsame.overlay (hsame.length ▸ htimer.length) ?_
          rw [PlainData.take_encode_delayData, ← hwin, window, List.drop_zero, List.take_take]
          rfl

end Library

end BehaviorTree
