import AgentRuntime.Learn.Evidence
import AgentRuntime.Lib.Framing

/-!
# `Learn.Trajectory` — what a trajectory digest identifies (`agent-learn/src/evidence.rs`)

Every part of a message is written with its length in front, so the bytes that are hashed of a transcript slice show
where each part ends: reading them from the front gives back the slice. The digest then identifies the slice as far as
SHA-256 has no collision.

The lengths are written as 64-bit numbers. A `usize` is at most that wide, so the length of a string or a list in
memory is written whole (`MessageInMemory`).
-/

namespace AgentRuntime.Learn

open Loop Words Json Framing

/-! ## What is in memory -/

structure CallInMemory (c : ToolCall) : Prop where
  id : TextInMemory c.id
  name : TextInMemory c.name
  arguments : TextInMemory c.arguments

instance (c : ToolCall) : Decidable (CallInMemory c) :=
  decidable_of_iff (TextInMemory c.id ∧ TextInMemory c.name ∧ TextInMemory c.arguments)
    ⟨fun ⟨hid, hname, harguments⟩ => ⟨hid, hname, harguments⟩, fun h => ⟨h.id, h.name, h.arguments⟩⟩

structure MessageInMemory (m : Message) : Prop where
  content : TextInMemory m.content
  count : m.toolCalls.length < u64Bound
  calls : ∀ c ∈ m.toolCalls, CallInMemory c
  callId : ∀ id ∈ m.toolCallId, TextInMemory id

instance (m : Message) : Decidable (MessageInMemory m) :=
  decidable_of_iff (TextInMemory m.content ∧ m.toolCalls.length < u64Bound ∧ (∀ c ∈ m.toolCalls, CallInMemory c) ∧
      ∀ id ∈ m.toolCallId, TextInMemory id)
    ⟨fun ⟨hcontent, hcount, hcalls, hid⟩ => ⟨hcontent, hcount, hcalls, hid⟩,
      fun h => ⟨h.content, h.count, h.calls, h.callId⟩⟩

/-- A list of messages as a program can hold one. -/
structure SliceInMemory (messages : List Message) : Prop where
  count : messages.length < u64Bound
  messages : ∀ m ∈ messages, MessageInMemory m

instance (messages : List Message) : Decidable (SliceInMemory messages) :=
  decidable_of_iff (messages.length < u64Bound ∧ ∀ m ∈ messages, MessageInMemory m)
    ⟨fun ⟨hcount, hmessages⟩ => ⟨hcount, hmessages⟩, fun h => ⟨h.count, h.messages⟩⟩

/-! ## What the bytes show -/

theorem shows_frame_text : Shows TextInMemory (fun s => frame (utf8 s)) id := shows_text shows_u64_be

theorem roleBytes_injective : Function.Injective roleBytes := by
  intro a b h
  cases a <;> cases b <;> first | rfl | exact absurd (utf8_injective h) (by decide)

theorem shows_roleBytes : Shows (fun _ => True) (fun r => frame (roleBytes r)) id := by
  refine ((shows_frame shows_u64_be).comp (k := roleBytes) fun r _ => ?_).imp fun _ _ _ _ h => roleBytes_injective h
  cases r <;> decide

theorem shows_callBytes : Shows CallInMemory callBytes id := by
  have hid := shows_frame_text.comp (k := ToolCall.id) fun c (h : CallInMemory c) => h.id
  have hname := shows_frame_text.comp (k := ToolCall.name) fun c (h : CallInMemory c) => h.name
  have harguments := shows_frame_text.comp (k := ToolCall.arguments) fun c (h : CallInMemory c) => h.arguments
  refine ((hid.append hname).append harguments).imp fun a b _ _ h => ?_
  cases a
  cases b
  simpa [and_assoc] using h

/-- The byte that says whether a message answers a call, and the call's id. -/
def callIdBytes : Option String → List UInt8
  | some id => 1 :: frame (utf8 id)
  | none => [0]

theorem shows_callIdBytes : Shows (fun o => ∀ id, o = some id → TextInMemory id) callIdBytes id := by
  have hoption := shows_option (0 : UInt8) 1 (by decide) shows_frame_text
  exact (hoption.congr fun o => by cases o <;> rfl).imp fun _ _ _ _ h => by simpa using h

/-- **A message is read back from its bytes**, whatever follows them. -/
theorem shows_messageBytes : Shows MessageInMemory messageBytes id := by
  have hrole := shows_roleBytes.comp (k := Message.role) fun m (_ : MessageInMemory m) => trivial
  have hcontent := shows_frame_text.comp (k := Message.content) fun m (h : MessageInMemory m) => h.content
  have hcalls := (shows_counted shows_u64_be shows_callBytes).comp (k := Message.toolCalls)
    fun m (h : MessageInMemory m) => ⟨h.count, h.calls⟩
  have hcallId := shows_callIdBytes.comp (k := Message.toolCallId) fun m (h : MessageInMemory m) => h.callId
  refine ((((hrole.append hcontent).append hcalls).append hcallId).congr fun m => ?_).imp fun a b _ _ h => ?_
  · cases h : m.toolCallId <;> simp [messageBytes, callIdBytes, h]
  · cases a
    cases b
    simpa [and_assoc] using h

/-- **A slice is read back from the bytes that are hashed of it.** -/
theorem shows_trajectoryBytes : Shows SliceInMemory trajectoryBytes id := by
  have hmessages := (shows_counted shows_u64_be shows_messageBytes).comp (k := id)
    fun l (h : SliceInMemory l) => ⟨h.count, h.messages⟩
  refine (((shows_const trajectoryDomain).append hmessages).congr fun l => ?_).imp fun a b _ _ h => ?_
  · simp [trajectoryBytes]
  · simpa using h

/-! ## The digest -/

/-- **A trajectory digest identifies its slice**: the hashed bytes are those of one slice only, so two slices share a
    digest only where SHA-256 has a collision on them. -/
theorem trajectory_digest_identifies (sha256 : List UInt8 → Digest) {messages messages' : List Message}
    (h : SliceInMemory messages) (h' : SliceInMemory messages') :
    (trajectoryBytes messages = trajectoryBytes messages' → messages = messages') ∧
      (CollisionFreeOn sha256 [trajectoryBytes messages, trajectoryBytes messages'] →
        trajectoryDigest sha256 messages = trajectoryDigest sha256 messages' → messages = messages') := by
  refine ⟨fun heq => shows_trajectoryBytes.eq h h' heq, fun hcf hdigest => ?_⟩
  have hhash : sha256 (trajectoryBytes messages) = sha256 (trajectoryBytes messages') := hexEncode_injective hdigest
  exact shows_trajectoryBytes.eq h h' (hcf _ (by simp) _ (by simp) hhash)

/-- One call whose text holds what another slice has in two: the lengths in front tell them apart. -/
theorem trajectory_digest_identifies_cut :
    trajectoryDigest Sha256.hash [.assistant "ab" [⟨"1", "ls", "{}"⟩]] ≠
      trajectoryDigest Sha256.hash [.assistant "a" [⟨"1", "b", "ls{}"⟩]] := by
  intro heq
  have hsame := (trajectory_digest_identifies Sha256.hash (by decide +kernel) (by decide +kernel)).2
    (by decide +kernel) heq
  exact absurd hsame (by decide)

end AgentRuntime.Learn
