import BehaviorTree.Proofs.Json.Parse
import BehaviorTree.Trace.Json

/-!
# Logs are read back from their text

The text of a log is written out character by character, and reading it gives the log again, however many events it
has. A reset is written with a kind only and a tick with a kind and a state; each is read as what it was.
-/

namespace BehaviorTree

open Json (ofFields ofNat ofText)

/-! ## The text -/

/-- What happened, as it is written: a reset has a kind only, a tick a kind and a state. -/
def NodeEvent.written : NodeEvent → String
  | .reset => "\x7b\"kind\":\"reset\"\x7d"
  | .tick s => "\x7b\"kind\":\"tick\",\"state\":\"" ++ s.name ++ "\"\x7d"

def TraceEvent.written (e : TraceEvent) : String :=
  "\x7b\"tick\":" ++ toString e.tick ++ ",\"node\":" ++ toString e.node ++ ",\"event\":" ++ e.event.written ++ "\x7d"

def TraceLog.written (l : TraceLog) : String :=
  "\x7b\"events\":[" ++ ",".intercalate (l.events.map TraceEvent.written) ++ "]\x7d"

theorem NodeEvent.compact_toJson (e : NodeEvent) : e.toJson.compact = e.written.toList := by
  cases e with
  | reset => rfl
  | tick s => cases s <;> rfl

theorem TraceEvent.compact_toJson (e : TraceEvent) : e.toJson.compact = e.written.toList := by
  have hnode : (toString e.node).toList = Nat.toDigits 10 e.node := String.toList_ofList
  have htick : (toString e.tick).toList = Nat.toDigits 10 e.tick.toNat := String.toList_ofList
  simp only [written, String.toList_append, hnode, htick, ← NodeEvent.compact_toJson]
  simp [toJson, ofFields, Json.compact, Json.compactFields, Json.quoted, ofNat]

theorem TraceLog.compact_toJson (l : TraceLog) : l.toJson.compact = l.written.toList := by
  have hevents : (l.events.map TraceEvent.toJson).map Json.compact =
      (l.events.map TraceEvent.written).map String.toList := by
    simp only [List.map_map, Function.comp_def, TraceEvent.compact_toJson]
  simp only [written, String.toList_append, String.toList_intercalate, ← hevents]
  simp [toJson, ofFields, Json.compact, Json.compactFields, Json.quoted, Json.compact_array]

theorem TraceEvent.text_eq_written (e : TraceEvent) : e.text = e.written := by
  rw [text, e.compact_toJson, String.ofList_toList]

theorem TraceLog.text_eq_written (l : TraceLog) : l.text = l.written := by
  rw [text, l.compact_toJson, String.ofList_toList]

/-! ## Fields -/

theorem TraceEvent.toJson_eq (e : TraceEvent) : e.toJson =
    ofFields (["tick", "node", "event"].zip [ofNat e.tick.toNat, ofNat e.node, e.event.toJson]) := rfl

theorem TraceLog.toJson_eq (l : TraceLog) : l.toJson =
    ofFields (["events"].zip [.array (l.events.map TraceEvent.toJson)]) := rfl

theorem TraceEvent.plain_names : ∀ name ∈ ["tick", "node", "event"], Json.PlainText name.toList := by decide

theorem TraceLog.plain_names : ∀ name ∈ ["events"], Json.PlainText name.toList := by decide

theorem NodeEvent.plain_toJson (e : NodeEvent) : e.toJson.Plain := by
  have hnames : ∀ name ∈ ["kind", "state"], Json.PlainText name.toList := by decide
  have hreset : (ofText "reset").Plain := show Json.PlainText "reset".toList by decide
  have htick : (ofText "tick").Plain := show Json.PlainText "tick".toList by decide
  cases e with
  | reset =>
      have hkind := (List.forall_mem_cons.mp hnames).1
      exact Json.plain_ofFields_zip (List.forall_mem_singleton.mpr hkind) (List.forall_mem_singleton.mpr hreset)
  | tick s =>
      have hname : (ofText s.name).Plain := show Json.PlainText s.name.toList by cases s <;> decide
      exact Json.plain_ofFields_zip hnames (List.forall_mem_cons.mpr ⟨htick, List.forall_mem_singleton.mpr hname⟩)

theorem TraceEvent.plain_toJson (e : TraceEvent) : e.toJson.Plain := by
  rw [toJson_eq]
  refine Json.plain_ofFields_zip plain_names ?_
  simp only [List.forall_mem_cons]
  exact ⟨⟨_, rfl⟩, ⟨_, rfl⟩, e.event.plain_toJson, nofun⟩

theorem TraceLog.plain_toJson (l : TraceLog) : l.toJson.Plain := by
  rw [toJson_eq]
  refine Json.plain_ofFields_zip plain_names (List.forall_mem_singleton.mpr ?_)
  refine Json.plainItems_iff.mpr fun v hv => ?_
  obtain ⟨e, -, rfl⟩ := List.mem_map.mp hv
  exact e.plain_toJson

/-! ## Reading -/

theorem NodeEvent.ofJson?_toJson (e : NodeEvent) : NodeEvent.ofJson? e.toJson = some e := by
  cases e with
  | reset => rfl
  | tick s => cases s <;> rfl

theorem TraceEvent.ofJson?_toJson {e : TraceEvent} (h : e.node < UInt64.size) :
    TraceEvent.ofJson? e.toJson = some e := by
  have htick : (ofNat e.tick.toNat).nat? UInt64.size = some e.tick.toNat := Json.nat?_ofNat e.tick.toNat_lt
  have hnode : (ofNat e.node).nat? UInt64.size = some e.node := Json.nat?_ofNat h
  rw [toJson_eq, ofJson?, Json.record?_ofFields_zip (by decide) plain_names rfl]
  simp [htick, hnode, NodeEvent.ofJson?_toJson]

theorem TraceLog.ofJson?_toJson {l : TraceLog} (h : ∀ e ∈ l.events, e.node < UInt64.size) :
    TraceLog.ofJson? l.toJson = some l := by
  have hevents : (l.events.map TraceEvent.toJson).mapM TraceEvent.ofJson? = some l.events := by
    rw [List.mapM_map]
    exact (mapM_eq_some fun e he => TraceEvent.ofJson?_toJson (h e he)).trans (congrArg some (List.map_id' _))
  rw [toJson_eq, ofJson?, Json.record?_ofFields_zip (by decide) plain_names rfl]
  simp [Json.items?, hevents]

/-! ## No two logs with the same text -/

theorem NodeEvent.toJson_injective {e e' : NodeEvent} (h : e.toJson = e'.toJson) : e = e' := by
  have he := e.ofJson?_toJson
  rw [h, ofJson?_toJson] at he
  exact (Option.some.inj he).symm

theorem TraceEvent.toJson_injective {e e' : TraceEvent} (h : e.toJson = e'.toJson) : e = e' := by
  obtain ⟨tick, node, event⟩ := e
  obtain ⟨tick', node', event'⟩ := e'
  obtain ⟨htick, hnode, hevent⟩ : ofNat tick.toNat = ofNat tick'.toNat ∧ ofNat node = ofNat node' ∧
      event.toJson = event'.toJson := by simpa [toJson, ofFields] using h
  cases UInt64.toNat_inj.mp (Json.ofNat_injective htick)
  cases Json.ofNat_injective hnode
  cases NodeEvent.toJson_injective hevent
  rfl

theorem TraceLog.text_injective {l l' : TraceLog} (h : l.text = l'.text) : l = l' := by
  have hcompact : l.toJson.compact = l'.toJson.compact := String.ofList_injective h
  have hjson : some l.toJson = some l'.toJson := by
    rw [← Json.parse?_compact l.plain_toJson, hcompact, Json.parse?_compact l'.plain_toJson]
  have hevents : l.events.map TraceEvent.toJson = l'.events.map TraceEvent.toJson := by
    simpa [toJson, ofFields] using hjson
  exact congrArg TraceLog.mk ((List.map_inj_right fun _ _ => TraceEvent.toJson_injective).mp hevents)

/-! ## Logs from their text -/

theorem TraceEvent.reads_text {e : TraceEvent} (h : e.node < UInt64.size) :
    (Json.parse? e.text.toList).bind TraceEvent.ofJson? = some e := by
  rw [text, String.toList_ofList, Json.parse?_compact e.plain_toJson]
  exact ofJson?_toJson h

theorem TraceLog.reads_text {l : TraceLog} (h : ∀ e ∈ l.events, e.node < UInt64.size) : ofText? l.text = some l := by
  rw [ofText?, text, String.toList_ofList, Json.parse?_compact l.plain_toJson]
  exact ofJson?_toJson h

/-- A log is read back from its text, and so is all that is asked of it, if its node numbers are 64-bit words, which
is what the reader takes. The text is `TraceLog.written`: there is a state in the text of a tick and none in that of
a reset, and each event by itself is read as what it was. No other log has this text. -/
theorem TraceLog.survives_text (l : TraceLog) (h : ∀ e ∈ l.events, e.node < UInt64.size) :
    (∃ l', ofText? l.text = some l' ∧ l' = l ∧ l'.resets = l.resets ∧ l'.ticks = l.ticks ∧
      l'.tickedNodes = l.tickedNodes ∧ ∀ n, l'.during n = l.during n) ∧
    l.text = l.written ∧
    (∀ e ∈ l.events, e.text = e.written ∧ (Json.parse? e.text.toList).bind TraceEvent.ofJson? = some e) ∧
    ∀ l' : TraceLog, l'.text = l.text → l' = l :=
  ⟨⟨l, reads_text h, rfl, rfl, rfl, rfl, fun _ => rfl⟩, l.text_eq_written,
    fun e he => ⟨e.text_eq_written, TraceEvent.reads_text (h e he)⟩, fun _ => text_injective⟩

theorem TraceLog.survives_text_lastTick :
    let l : TraceLog := ⟨[⟨0xffffffffffffffff, 7, .reset⟩, ⟨0, 0xffffffffffffffff, .tick .running⟩]⟩
    (∀ e ∈ l.events, e.node < UInt64.size) ∧
    l.text = "\x7b\"events\":[" ++
      "\x7b\"tick\":18446744073709551615,\"node\":7,\"event\":\x7b\"kind\":\"reset\"\x7d\x7d," ++
      "\x7b\"tick\":0,\"node\":18446744073709551615,\"event\":\x7b\"kind\":\"tick\",\"state\":\"Running\"\x7d\x7d" ++
      "]\x7d" ∧
    ∃ l', ofText? l.text = some l' ∧ l'.resets = [7] ∧ l'.ticks = [(0xffffffffffffffff, .running)] := by
  intro l
  have hnodes : ∀ e ∈ l.events, e.node < UInt64.size := by decide
  obtain ⟨⟨l', hread, rfl, -⟩, hwritten, -⟩ := survives_text l hnodes
  exact ⟨hnodes, hwritten.trans rfl, _, hread, rfl, rfl⟩

end BehaviorTree
