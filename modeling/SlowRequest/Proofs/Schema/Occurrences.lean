import SlowRequest.Proofs.Json.Records
import SlowRequest.Schema.Occurrences
namespace SlowRequest

open Json

private theorem reads_handle {id : NodeId} (h : id.index < Word.limit32) :
    Reads NodeId.reader id id.toJson.render :=
  (reads_natural h (by decide)).mapped NodeId.mk

private theorem reads_handles {ids : List NodeId} (h : ∀ id ∈ ids, id.index < Word.limit32) :
    Reads nodeIds ids (Value.array (ids.map NodeId.toJson)).render :=
  (reads_list (by decide) ids fun id hid =>
    ⟨reads_handle (h id hid), opens_natural id.index⟩).mapped Array.toList

private theorem reads_words (ns : List UInt64) : Reads CauseReference.invocations ns
    (Value.array (ns.map fun n => Value.natural n.toNat)).render :=
  (reads_list (by decide) ns fun n _ => ⟨reads_word64 n, opens_natural n.toNat⟩).mapped
    Array.toList

private theorem reads_text? (s : Option String) :
    Reads (nullable string) s (Value.ofOption .string s).render :=
  reads_nullable fun t _ => ⟨reads_string t, opens_string t⟩

/-- The text of the double is read as the double. -/
def ReadsBack (x : Float) : Prop := parse float (String.ofList (writeFloat x)) = .ok x

instance : DecidablePred ReadsBack := fun _ => inferInstanceAs (Decidable (_ = _))

private theorem reads_time {x : Float} (h : ReadsBack x) :
    Reads float x (Value.float x).render := by
  rw [Value.render]
  exact reads_float h

private theorem reads_time? {x : Option Float} (h : ∀ y ∈ x, ReadsBack y) :
    Reads (nullable float) x (Value.ofOption .float x).render := by
  apply reads_nullable
  intro y hy
  have hopens : Opens (Value.float y).render := by
    rw [Value.render]
    exact opens_float (h y hy)
  exact ⟨reads_time (h y hy), hopens⟩

namespace Timer

def times (t : Timer) : List Float := t.duration :: t.cpu :: t.exclusive.toList

theorem reads {t : Timer} (h : ∀ x ∈ t.times, ReadsBack x) : Reads reader t t.toJson.render := by
  have hexclusive : ∀ x ∈ t.exclusive, ReadsBack x := by
    intro x hx
    apply h
    simp [times, Option.mem_toList.mpr hx]
  exact reads_record (by decide) default
    (.cons (reads_field (reads_time (h _ (by simp [times]))) _ _ _) <|
      .cons (reads_field (reads_time? hexclusive) _ _ _) <|
      .cons (reads_field (reads_time (h _ (by simp [times]))) _ _ _) <|
      .cons (reads_field (reads_word64 t.count) _ _ _) .nil) (by decide)

end Timer

namespace CallReference

theorem reads {c : CallReference} (hnode : c.node.index < Word.limit32)
    (htimes : ∀ x ∈ c.timer.times, ReadsBack x) : Reads reader c c.toJson.render :=
  reads_record (by decide) default
    (.cons (reads_field (reads_word64 c.invocationId) _ _ _) <|
      .cons (reads_field (reads_handle hnode) _ _ _) <|
      .cons (reads_field (reads_word64 c.method) _ _ _) <|
      .cons (reads_field (Timer.reads htimes) _ _ _) .nil) (by decide)

end CallReference

theorem CauseReference.reads {c : CauseReference} (hnodes : ∀ id ∈ c.nodes, id.index < Word.limit32)
    (hexclusive : ReadsBack c.exclusiveTime) (hduration : ReadsBack c.duration)
    (hcount : c.count < Word.limit64) : Reads reader c c.toJson.render :=
  reads_record (by decide) default
    (.cons (reads_field (reads_word64 c.method) _ _ _) <|
      .cons (reads_field (reads_text? c.statement) _ _ _) <|
      .cons (reads_field (reads_text? c.uri) _ _ _) <|
      .cons (reads_field (reads_words c.invocationIds) _ _ _) <|
      .cons (reads_field (reads_handles hnodes) _ _ _) <|
      .cons (reads_field (reads_time hexclusive) _ _ _) <|
      .cons (reads_field (reads_time hduration) _ _ _) <|
      .cons (reads_field (reads_natural hcount (Nat.le_refl _)) _ _ _) .nil) (by decide)

theorem CauseType.reads (c : CauseType) : Reads reader c c.toJson.render := by
  apply reads_bare
  cases c <;> rfl

theorem CauseStructure.reads {s : CauseStructure} (hdepth : s.depth < Word.limit64) :
    Reads reader s s.toJson.render :=
  reads_record (by decide) default
    (.cons (reads_field s.type.reads _ _ _) <|
      .cons (reads_field (reads_natural hdepth (Nat.le_refl _)) _ _ _) .nil) (by decide)

theorem Instant.reads {i : Instant} (h : ofText? i.text = some i) :
    Reads reader i i.toJson.render := (reads_string i.text).checked h

namespace Occurrence

def times (o : Occurrence) : List Float :=
  o.requestRoot.timer.times ++ o.globalContext.timer.times ++ o.problemContext.timer.times ++
    [o.rootCause.exclusiveTime, o.rootCause.duration]

def handles (o : Occurrence) : List NodeId :=
  [o.requestRoot.node, o.globalContext.node, o.problemContext.node] ++ o.rootCause.nodes

/-- Times that JSON has numbers for, and numbers that fit their words. -/
structure Encodable (o : Occurrence) : Prop where
  times : ∀ x ∈ o.times, x.isFinite
  handles : ∀ id ∈ o.handles, id.index < Word.limit32
  count : o.rootCause.count < Word.limit64
  depth : o.causeStructure.depth < Word.limit64

/-- The texts of the times and of the instant of the occurrence are read as what they stand for. -/
structure Legible (o : Occurrence) : Prop where
  times : ∀ x ∈ o.times, x.isFinite → ReadsBack x
  timestamp : Instant.ofText? o.timestamp.text = some o.timestamp

theorem reads {o : Occurrence} (h : o.Encodable) (hlegible : o.Legible) :
    Reads reader o o.toJson.render := by
  have htimes : ∀ x ∈ o.times, ReadsBack x := fun x hx => hlegible.times x hx (h.times x hx)
  have hroot := CallReference.reads (h.handles o.requestRoot.node (by simp [handles]))
    fun x hx => htimes x (by simp [times, hx])
  have hglobal := CallReference.reads (h.handles o.globalContext.node (by simp [handles]))
    fun x hx => htimes x (by simp [times, hx])
  have hproblem := CallReference.reads (h.handles o.problemContext.node (by simp [handles]))
    fun x hx => htimes x (by simp [times, hx])
  have hcause := CauseReference.reads (fun id hid => h.handles id (by simp [handles, hid]))
    (htimes o.rootCause.exclusiveTime (by simp [times]))
    (htimes o.rootCause.duration (by simp [times])) h.count
  exact reads_record (by decide) default
    (.cons (reads_field (reads_word64 o.id) _ _ _) <|
      .cons (reads_field (Instant.reads hlegible.timestamp) _ _ _) <|
      .cons (reads_field hroot _ _ _) <|
      .cons (reads_field hglobal _ _ _) <|
      .cons (reads_field hproblem _ _ _) <|
      .cons (reads_field hcause _ _ _) <|
      .cons (reads_field (CauseStructure.reads h.depth) _ _ _) <|
      .cons (reads_field (reads_word32 o.application) _ _ _) <|
      .cons (reads_field (reads_word32 o.businessTransaction) _ _ _) .nil) (by decide)

/-- An occurrence is read back from its text, and no other one has that text. -/
theorem read_write {o : Occurrence} (h : o.Encodable) (hlegible : o.Legible) :
    read o.write = .ok o ∧
      ∀ o' : Occurrence, o'.Encodable → o'.Legible → o'.write = o.write → o' = o := by
  have hread : ∀ o : Occurrence, o.Encodable → o.Legible → read o.write = .ok o :=
    fun o h hlegible => parse_text (reads h hlegible)
  refine ⟨hread o h hlegible, ?_⟩
  intro o' h' hlegible' hsame
  have hback := hread o' h' hlegible'
  rw [hsame, hread o h hlegible] at hback
  exact (Except.ok.inj hback).symm

/-- An occurrence at the ends of the words, with texts that need escapes. -/
def extreme : Occurrence :=
  let timer : Timer := ⟨-0.0, some 5e-324, 1.7976931348623157e308, 0xFFFFFFFFFFFFFFFF⟩
  let call : CallReference := ⟨0xFFFFFFFFFFFFFFFF, ⟨0xFFFFFFFF⟩, 0, timer⟩
  { id := 0xFFFFFFFFFFFFFFFF
    timestamp := ⟨1700000000, 123456789⟩
    requestRoot := call
    globalContext := { call with timer := { timer with exclusive := none } }
    problemContext := call
    rootCause :=
      { method := 0xFFFFFFFFFFFFFFFF
        statement := some "select \"a\\b\"\n\x00\x1f -- é😀"
        uri := none
        invocationIds := [0, 0xFFFFFFFFFFFFFFFF]
        nodes := [⟨0⟩, ⟨0xFFFFFFFF⟩]
        exclusiveTime := 0.1
        duration := 1e16
        count := 0xFFFFFFFFFFFFFFFF }
    causeStructure := ⟨.nPlusOneDatabase, 0xFFFFFFFFFFFFFFFF⟩
    application := 0xFFFFFFFF
    businessTransaction := 0 }

theorem read_write_extreme :
    extreme.Encodable ∧ extreme.Legible ∧ read extreme.write = .ok extreme ∧
      ∀ o' : Occurrence, o'.Encodable → o'.Legible → o'.write = extreme.write → o' = extreme := by
  have hencodable : extreme.Encodable := by
    constructor
    · decide +kernel
    · decide
    · decide
    · decide
  have hlegible : extreme.Legible := by
    constructor
    · decide +kernel
    · decide +kernel
  exact ⟨hencodable, hlegible, read_write hencodable hlegible⟩

end Occurrence
end SlowRequest
