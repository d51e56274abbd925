import Mathlib.Data.Finset.Basic
import Mathlib.Data.Finset.Lattice.Lemmas
import Mathlib.Data.Finset.Dedup
import MiHarness.Gateway.Messages
import MiHarness.Library.Checked

/-!
# The history of tool calls

`validate_history` goes once over the messages, with the ids that wait for a result and the ids seen so
far.  `Turns` is the grammar of tool calls: a turn with calls is followed by a permutation of its
results, and no result stands elsewhere.  `history_grammar` says that the one pass accepts exactly the
histories of the grammar whose ids are nonempty and distinct, and returns the ids without a result.
-/

namespace MiHarness

open Library

/-- The two sets of `validate_history`. -/
structure Pairing where
  pending : Finset String
  seen : Finset String
deriving DecidableEq

def invalidHistory (message : String) : GatewayError :=
  { code := .invalidHistory, message }

/-- One turn of the loop over the calls of an assistant message. -/
def Pairing.register (p : Pairing) (call : ToolCall) : Except GatewayError Pairing := do
  require (call.identity ≠ "" ∧ call.identity ∉ p.seen)
    (invalidHistory "Missing or repeated tool-call ID")
  return { pending := insert call.identity p.pending, seen := insert call.identity p.seen }

/-- One turn of the loop over the messages. -/
def Pairing.next (p : Pairing) : BaseMessage → Except GatewayError Pairing
  | .tool message => do
      require (message.toolCallId ∈ p.pending)
        (invalidHistory "Tool result has no matching pending call")
      return { p with pending := p.pending.erase message.toolCallId }
  | message => do
      require (p.pending = ∅)
        (invalidHistory "Assistant tool calls and results must remain paired")
      message.toolCalls.foldlM register p

def validateHistory (messages : List BaseMessage) (allowPending : Bool) :
    Except GatewayError (Finset String) := do
  let last ← messages.foldlM Pairing.next { pending := ∅, seen := ∅ }
  require (last.pending = ∅ ∨ allowPending)
    (invalidHistory "Cannot call a model with unresolved tool calls")
  return last.pending

/-! ## The grammar -/

/-- The ids of the calls of a history. -/
def callIds (messages : List BaseMessage) : List String :=
  messages.flatMap fun message => message.toolCalls.map ToolCall.identity

/-- The ids that the results of a history answer. -/
def resultIds : List BaseMessage → List String
  | [] => []
  | .tool message :: messages => message.toolCallId :: resultIds messages
  | _ :: messages => resultIds messages

/-- A message that is no result and makes no calls. -/
def BaseMessage.Plain : BaseMessage → Prop
  | .tool _ => False
  | message => message.toolCalls = []

/-- The results follow the turn that asks for them, in any order.  The last turn may lack some. -/
inductive Turns (allowPending : Bool) : List BaseMessage → Prop where
  | done : Turns allowPending []
  | plain {message : BaseMessage} {rest : List BaseMessage} (plain : message.Plain)
      (later : Turns allowPending rest) : Turns allowPending (message :: rest)
  | answered {message : AIMessage} {results : List ToolMessage} {rest : List BaseMessage}
      (calls : message.toolCalls ≠ [])
      (answers : (results.map ToolMessage.toolCallId).Perm message.callIds)
      (later : Turns allowPending rest) :
      Turns allowPending (.ai message :: (results.map .tool ++ rest))
  | pending {message : AIMessage} {results : List ToolMessage} {lacking : List String}
      (allowed : allowPending = true)
      (answers : (results.map ToolMessage.toolCallId ++ lacking).Perm message.callIds)
      (lacks : lacking ≠ []) :
      Turns allowPending (.ai message :: results.map .tool)

/-! ## One message -/

namespace Pairing

variable {p q : Pairing} {messages rest : List BaseMessage}

theorem register_eq_ok {call : ToolCall} : p.register call = .ok q ↔
    (call.identity ≠ "" ∧ call.identity ∉ p.seen) ∧
      q = { pending := insert call.identity p.pending, seen := insert call.identity p.seen } := by
  unfold register
  constructor
  · intro h
    obtain ⟨_, new, h⟩ := bind_eq_ok.mp h
    exact ⟨require_eq_ok.mp new, (pure_eq_ok.mp h).symm⟩
  · rintro ⟨new, rfl⟩
    rw [require_pos _ new]
    rfl

/-- The calls of one message are registered if and only if their ids are nonempty, distinct and not
seen before. -/
theorem registers : ∀ {calls : List ToolCall} {p q : Pairing}, calls.foldlM register p = .ok q ↔
    ((∀ id ∈ calls.map ToolCall.identity, id ≠ "" ∧ id ∉ p.seen) ∧
        (calls.map ToolCall.identity).Nodup) ∧
      q = { pending := p.pending ∪ (calls.map ToolCall.identity).toFinset
            seen := p.seen ∪ (calls.map ToolCall.identity).toFinset }
  | [], p, q => by
      rw [List.foldlM_nil, pure_eq_ok]
      simp
      exact eq_comm
  | call :: calls, p, q => by
      rw [List.foldlM_cons, bind_eq_ok]
      constructor
      · rintro ⟨t, first, later⟩
        obtain ⟨new, rfl⟩ := register_eq_ok.mp first
        obtain ⟨⟨fresh, distinct⟩, rfl⟩ := registers.mp later
        have away : ∀ id ∈ calls.map ToolCall.identity, id ≠ call.identity ∧ id ∉ p.seen :=
          fun id hid => not_or.mp fun h => (fresh id hid).2 (Finset.mem_insert.mpr h)
        refine ⟨⟨?_, ?_⟩, ?_⟩
        · intro id hid
          rcases List.mem_cons.mp hid with rfl | hid
          · exact new
          · exact ⟨(fresh id hid).1, (away id hid).2⟩
        · exact List.nodup_cons.mpr ⟨fun hid => (away _ hid).1 rfl, distinct⟩
        · simp [Finset.insert_union, Finset.union_insert]
      · rintro ⟨⟨fresh, distinct⟩, rfl⟩
        obtain ⟨away, distinct⟩ := List.nodup_cons.mp distinct
        refine ⟨_, register_eq_ok.mpr ⟨fresh _ (List.mem_cons_self ..), rfl⟩, registers.mpr ⟨⟨?_, distinct⟩, ?_⟩⟩
        · intro id hid
          have old := fresh id (List.mem_cons_of_mem _ hid)
          refine ⟨old.1, fun h => ?_⟩
          rcases Finset.mem_insert.mp h with rfl | h
          · exact away hid
          · exact old.2 h
        · simp [Finset.insert_union, Finset.union_insert]

theorem next_tool {message : ToolMessage} : p.next (.tool message) = .ok q ↔
    message.toolCallId ∈ p.pending ∧
      q = { p with pending := p.pending.erase message.toolCallId } := by
  constructor
  · intro h
    obtain ⟨_, waits, h⟩ := bind_eq_ok.mp h
    exact ⟨require_eq_ok.mp waits, (pure_eq_ok.mp h).symm⟩
  · rintro ⟨waits, rfl⟩
    rw [next, require_pos _ waits]
    rfl

/-- Every other message comes when nothing waits, and registers its calls. -/
theorem next_other {message : BaseMessage} (other : ∀ result, message ≠ .tool result) :
    p.next message = .ok q ↔
      p.pending = ∅ ∧ message.toolCalls.foldlM register p = .ok q := by
  have unfolded : p.next message = (do
      require (p.pending = ∅)
        (invalidHistory "Assistant tool calls and results must remain paired")
      message.toolCalls.foldlM register p) := by
    cases message with
    | tool result => exact absurd rfl (other result)
    | human => rfl
    | system => rfl
    | ai message => rfl
  rw [unfolded, bind_eq_ok]
  constructor
  · rintro ⟨_, idle, h⟩
    exact ⟨require_eq_ok.mp idle, h⟩
  · rintro ⟨idle, h⟩
    exact ⟨⟨⟩, require_eq_ok.mpr idle, h⟩

/-! ## A run over the messages -/

/-- What a run over the messages says of their ids, whether the calls are paired or not. -/
structure Read (p q : Pairing) (messages : List BaseMessage) : Prop where
  named : ∀ id ∈ callIds messages, id ≠ "" ∧ id ∉ p.seen
  distinct : (callIds messages).Nodup
  seen : q.seen = p.seen ∪ (callIds messages).toFinset

theorem Read.of_run : ∀ {messages : List BaseMessage} {p q : Pairing},
    messages.foldlM next p = .ok q → Read p q messages
  | [], p, q, h => by
      rw [List.foldlM_nil, pure_eq_ok] at h
      exact { named := by simp [callIds], distinct := List.nodup_nil, seen := by simp [h, callIds] }
  | message :: rest, p, q, h => by
      rw [List.foldlM_cons] at h
      obtain ⟨t, first, later⟩ := bind_eq_ok.mp h
      have tail := Read.of_run later
      have head : (∀ id ∈ message.toolCalls.map ToolCall.identity, id ≠ "" ∧ id ∉ p.seen) ∧
          (message.toolCalls.map ToolCall.identity).Nodup ∧
          t.seen = p.seen ∪ (message.toolCalls.map ToolCall.identity).toFinset := by
        by_cases result : ∃ m, message = .tool m
        · obtain ⟨m, rfl⟩ := result
          obtain ⟨_, rfl⟩ := next_tool.mp first
          simp [BaseMessage.toolCalls]
        · obtain ⟨_, first⟩ := (next_other fun m h => result ⟨m, h⟩).mp first
          obtain ⟨⟨named, distinct⟩, rfl⟩ := registers.mp first
          exact ⟨named, distinct, rfl⟩
      obtain ⟨named, distinct, seen⟩ := head
      have apart : ∀ id ∈ callIds rest, id ∉ message.toolCalls.map ToolCall.identity := by
        intro id later here
        apply (tail.named id later).2
        rw [seen]
        exact Finset.mem_union_right _ (List.mem_toFinset.mpr here)
      constructor
      · intro id hid
        rcases List.mem_append.mp hid with hid | hid
        · exact named id hid
        · refine ⟨(tail.named id hid).1, fun old => (tail.named id hid).2 ?_⟩
          rw [seen]
          exact Finset.mem_union_left _ old
      · exact distinct.append tail.distinct fun id here later => apart id later here
      · rw [tail.seen, seen, Finset.union_assoc, ← List.toFinset_append]
        rfl

/-- The run takes results while calls wait, and stops with them at the next message that is none. -/
theorem answers : ∀ {messages : List BaseMessage} {p q : Pairing},
    messages.foldlM next p = .ok q → ∃ (results : List ToolMessage) (rest : List BaseMessage),
      messages = results.map .tool ++ rest ∧ (results.map ToolMessage.toolCallId).Nodup ∧
      (results.map ToolMessage.toolCallId).toFinset ⊆ p.pending ∧
      rest.foldlM next
        { p with pending := p.pending \ (results.map ToolMessage.toolCallId).toFinset } = .ok q ∧
      (rest = [] ∨ p.pending = (results.map ToolMessage.toolCallId).toFinset)
  | [], p, q, h => ⟨[], [], rfl, List.nodup_nil, by simp, by simpa using h, .inl rfl⟩
  | message :: rest, p, q, h => by
      rw [List.foldlM_cons] at h
      obtain ⟨t, first, later⟩ := bind_eq_ok.mp h
      by_cases result : ∃ m, message = .tool m
      · obtain ⟨m, rfl⟩ := result
        obtain ⟨waits, rfl⟩ := next_tool.mp first
        obtain ⟨results, rest, rfl, distinct, within, later, ends⟩ := answers later
        have fresh : m.toolCallId ∉ results.map ToolMessage.toolCallId := fun h =>
          (Finset.mem_erase.mp (within (List.mem_toFinset.mpr h))).1 rfl
        refine ⟨m :: results, rest, rfl, List.nodup_cons.mpr ⟨fresh, distinct⟩, ?_, ?_, ?_⟩
        · rw [List.map_cons, List.toFinset_cons]
          exact Finset.insert_subset waits (within.trans (Finset.erase_subset ..))
        · rw [List.map_cons, List.toFinset_cons, Finset.sdiff_insert, ← Finset.erase_sdiff_comm]
          exact later
        · rcases ends with ends | ends
          · exact .inl ends
          · right
            rw [List.map_cons, List.toFinset_cons, ← ends]
            exact (Finset.insert_erase waits).symm
      · obtain ⟨idle, _⟩ := (next_other fun m h => result ⟨m, h⟩).mp first
        refine ⟨[], message :: rest, rfl, List.nodup_nil, by simp, ?_, .inr idle⟩
        rw [List.map_nil, List.toFinset_nil, Finset.sdiff_empty, List.foldlM_cons]
        exact bind_eq_ok.mpr ⟨t, first, later⟩

/-- Results of calls that wait are taken in any order. -/
theorem takes : ∀ {results : List ToolMessage} {p : Pairing},
    (results.map ToolMessage.toolCallId).Nodup →
    (∀ id ∈ results.map ToolMessage.toolCallId, id ∈ p.pending) →
    (results.map BaseMessage.tool).foldlM next p = .ok
      { p with pending := p.pending \ (results.map ToolMessage.toolCallId).toFinset }
  | [], p, _, _ => by
      rw [List.map_nil, List.map_nil, List.toFinset_nil, Finset.sdiff_empty]
      rfl
  | m :: results, p, distinct, waits => by
      obtain ⟨fresh, distinct⟩ := List.nodup_cons.mp distinct
      rw [List.map_cons, List.foldlM_cons, next_tool.mpr ⟨waits _ (List.mem_cons_self ..), rfl⟩,
        ok_bind, takes distinct]
      · rw [List.map_cons, List.toFinset_cons, Finset.sdiff_insert, ← Finset.erase_sdiff_comm]
      · intro id hid
        refine Finset.mem_erase.mpr ⟨?_, waits id (List.mem_cons_of_mem _ hid)⟩
        rintro rfl
        exact fresh hid

/-- What waits at the end of a run are the calls without a result. -/
theorem pending_of_run : ∀ {messages : List BaseMessage} {p q : Pairing},
    messages.foldlM next p = .ok q → p.pending ⊆ p.seen →
    q.pending = (p.pending ∪ (callIds messages).toFinset) \ (resultIds messages).toFinset
  | [], p, q, h, _ => by
      rw [List.foldlM_nil, pure_eq_ok] at h
      simp [← h, callIds, resultIds]
  | message :: rest, p, q, h, known => by
      have read := Read.of_run h
      rw [List.foldlM_cons] at h
      obtain ⟨t, first, later⟩ := bind_eq_ok.mp h
      by_cases result : ∃ m, message = .tool m
      · obtain ⟨m, rfl⟩ := result
        obtain ⟨waits, rfl⟩ := next_tool.mp first
        have calls : callIds (.tool m :: rest) = callIds rest := rfl
        have fresh : m.toolCallId ∉ (callIds rest).toFinset := fun h =>
          (read.named _ (List.mem_toFinset.mp h)).2 (known waits)
        rw [pending_of_run later ((Finset.erase_subset ..).trans known), resultIds, calls,
          List.toFinset_cons, Finset.sdiff_insert, ← Finset.erase_sdiff_comm,
          Finset.erase_union_distrib, Finset.erase_eq_of_notMem fresh]
      · have other : ∀ m, message ≠ .tool m := fun m h => result ⟨m, h⟩
        obtain ⟨idle, first⟩ := (next_other other).mp first
        obtain ⟨_, rfl⟩ := registers.mp first
        have results : resultIds (message :: rest) = resultIds rest := by
          cases message with
          | tool m => exact absurd rfl (other m)
          | human => rfl
          | system => rfl
          | ai m => rfl
        rw [pending_of_run later (Finset.union_subset_union_left known), results, Finset.union_assoc,
          ← List.toFinset_append]
        rfl

/-- When nothing waits, the calls of an assistant message are what waits next. -/
theorem next_turn {m : AIMessage} {seen : Finset String} :
    next { pending := ∅, seen } (.ai m) = .ok q ↔
      ((∀ id ∈ m.callIds, id ≠ "" ∧ id ∉ seen) ∧ m.callIds.Nodup) ∧
        q = { pending := m.callIds.toFinset, seen := seen ∪ m.callIds.toFinset } := by
  rw [next_other fun _ h => by cases h]
  constructor
  · rintro ⟨_, h⟩
    obtain ⟨ids, rfl⟩ := registers.mp h
    exact ⟨ids, congrArg (Pairing.mk · _) (Finset.empty_union _)⟩
  · rintro ⟨ids, rfl⟩
    refine ⟨rfl, registers.mpr ⟨ids, ?_⟩⟩
    exact congrArg (Pairing.mk · _) (Finset.empty_union _).symm

theorem next_plain {message : BaseMessage} {seen : Finset String} (plain : message.Plain) :
    next { pending := ∅, seen } message = .ok { pending := ∅, seen } := by
  have other : ∀ m, message ≠ .tool m := by
    rintro m rfl
    exact plain
  have calls : message.toolCalls = [] := by
    cases message with
    | tool m => exact plain.elim
    | human => rfl
    | system => rfl
    | ai m => exact plain
  rw [next_other other, calls]
  exact ⟨rfl, rfl⟩

end Pairing

/-! ## The grammar and the run -/

section Grammar

variable {allowPending : Bool}

/-- What the one pass accepts is in the grammar.  The induction is on a bound of the length, as a turn
takes its results with it. -/
theorem turns_of_run : ∀ (n : Nat) {messages : List BaseMessage} {seen : Finset String} {q : Pairing},
    messages.length ≤ n → messages.foldlM Pairing.next { pending := ∅, seen } = .ok q →
    q.pending = ∅ ∨ allowPending = true → Turns allowPending messages
  | _, [], _, _, _, _, _ => .done
  | n + 1, .tool m :: rest, seen, q, _, h, ends => by
      rw [List.foldlM_cons] at h
      obtain ⟨t, first, _⟩ := bind_eq_ok.mp h
      exact absurd (Pairing.next_tool.mp first).1 (Finset.notMem_empty _)
  | n + 1, .human :: rest, seen, q, bound, h, ends =>
      .plain rfl (turns_of_run n (Nat.le_of_succ_le_succ bound) h ends)
  | n + 1, .system :: rest, seen, q, bound, h, ends =>
      .plain rfl (turns_of_run n (Nat.le_of_succ_le_succ bound) h ends)
  | n + 1, .ai m :: rest, seen, q, bound, h, ends => by
      have shorter : rest.length ≤ n := Nat.le_of_succ_le_succ bound
      rw [List.foldlM_cons] at h
      obtain ⟨t, first, later⟩ := bind_eq_ok.mp h
      obtain ⟨⟨_, distinct⟩, rfl⟩ := Pairing.next_turn.mp first
      by_cases calls : m.toolCalls = []
      · have none : m.callIds = [] := by rw [AIMessage.callIds, calls, List.map_nil]
        rw [none] at later
        exact .plain calls (turns_of_run n shorter later ends)
      obtain ⟨results, rest, rfl, unique, within, later, stops⟩ := Pairing.answers later
      by_cases full : m.callIds.toFinset ⊆ (results.map ToolMessage.toolCallId).toFinset
      · have answers := List.perm_of_nodup_nodup_toFinset_eq unique distinct
          (within.antisymm full)
        rw [Finset.sdiff_eq_empty_iff_subset.mpr full] at later
        have after : rest.length ≤ n := by
          rw [List.length_append] at shorter
          omega
        exact .answered calls answers (turns_of_run n after later ends)
      · -- Some call has no result, so the list ends here and may do so.
        have last : rest = [] := stops.resolve_right fun same => full same.le
        subst last
        rw [List.foldlM_nil, pure_eq_ok] at later
        subst later
        have allowed := ends.resolve_left fun none =>
          full (Finset.sdiff_eq_empty_iff_subset.mp none)
        rw [List.append_nil]
        refine @Turns.pending _ m results
          (m.callIds.filter (· ∉ results.map ToolMessage.toolCallId)) allowed ?_ ?_
        · refine List.perm_of_nodup_nodup_toFinset_eq ?_ distinct ?_
          · refine unique.append (distinct.filter _) fun id here lacks => ?_
            exact of_decide_eq_true (List.mem_filter.mp lacks).2 here
          · ext id
            simp only [List.toFinset_append, Finset.mem_union, List.mem_toFinset, List.mem_filter,
              decide_eq_true_eq]
            constructor
            · rintro (here | ⟨call, _⟩)
              · exact List.mem_toFinset.mp (within (List.mem_toFinset.mpr here))
              · exact call
            · intro call
              by_cases here : id ∈ results.map ToolMessage.toolCallId
              · exact .inl here
              · exact .inr ⟨call, here⟩
        · intro none
          refine full fun id call => ?_
          by_contra missing
          have lacks : id ∈ m.callIds.filter (· ∉ results.map ToolMessage.toolCallId) :=
            List.mem_filter.mpr ⟨List.mem_toFinset.mp call, decide_eq_true fun h =>
              missing (List.mem_toFinset.mpr h)⟩
          rw [none] at lacks
          exact List.not_mem_nil lacks

theorem callIds_results (results : List ToolMessage) : callIds (results.map .tool) = [] := by
  induction results with
  | nil => rfl
  | cons m results ih => exact ih

theorem callIds_turn {m : AIMessage} {results : List ToolMessage} {rest : List BaseMessage} :
    callIds (.ai m :: (results.map .tool ++ rest)) = m.callIds ++ callIds rest := by
  have none := callIds_results results
  unfold callIds at none ⊢
  rw [List.flatMap_cons, List.flatMap_append, none]
  rfl

/-- A history of the grammar whose ids are new, nonempty and distinct passes. -/
theorem run_of_turns {messages : List BaseMessage} (turns : Turns allowPending messages) :
    ∀ seen : Finset String, (∀ id ∈ callIds messages, id ≠ "" ∧ id ∉ seen) →
      (callIds messages).Nodup → ∃ q, messages.foldlM Pairing.next { pending := ∅, seen } = .ok q ∧
        (q.pending = ∅ ∨ allowPending = true) := by
  induction turns with
  | done => exact fun _ _ _ => ⟨_, rfl, .inl rfl⟩
  | @plain message rest plain later ih =>
      intro seen named distinct
      obtain ⟨q, run, ends⟩ := ih seen (fun id hid => named id (List.mem_append_right _ hid))
        (List.Nodup.of_append_right distinct)
      refine ⟨q, ?_, ends⟩
      rw [List.foldlM_cons, Pairing.next_plain plain]
      exact run
  | @answered m results rest calls answers later ih =>
      intro seen named distinct
      rw [callIds_turn] at named distinct
      obtain ⟨here, after, apart⟩ := List.nodup_append'.mp distinct
      have asked := Pairing.next_turn.mpr
        ⟨⟨fun id hid => named id (List.mem_append_left _ hid), here⟩, rfl⟩
      have unique : (results.map ToolMessage.toolCallId).Nodup := answers.nodup_iff.mpr here
      have taken := Pairing.takes (p := ⟨m.callIds.toFinset, seen ∪ m.callIds.toFinset⟩) unique
        fun id hid => List.mem_toFinset.mpr (answers.mem_iff.mp hid)
      have none : m.callIds.toFinset \ (results.map ToolMessage.toolCallId).toFinset = ∅ := by
        rw [List.toFinset_eq_of_perm _ _ answers, Finset.sdiff_self]
      rw [none] at taken
      obtain ⟨q, run, ends⟩ := ih (seen ∪ m.callIds.toFinset)
        (fun id hid => by
          obtain ⟨nonempty, fresh⟩ := named id (List.mem_append_right _ hid)
          refine ⟨nonempty, fun old => ?_⟩
          rcases Finset.mem_union.mp old with old | old
          · exact fresh old
          · exact apart (List.mem_toFinset.mp old) hid)
        after
      refine ⟨q, ?_, ends⟩
      rw [List.foldlM_cons, asked, ok_bind, List.foldlM_append, taken]
      exact run
  | @pending m results lacking allowed answers lacks =>
      intro seen named distinct
      have calls : callIds (.ai m :: results.map .tool) = m.callIds := by
        rw [← List.append_nil (results.map BaseMessage.tool), callIds_turn]
        exact List.append_nil _
      rw [calls] at named distinct
      have asked := Pairing.next_turn.mpr ⟨⟨named, distinct⟩, rfl⟩
      have unique : (results.map ToolMessage.toolCallId).Nodup :=
        List.Nodup.of_append_left (answers.nodup_iff.mpr distinct)
      have taken := Pairing.takes (p := ⟨m.callIds.toFinset, seen ∪ m.callIds.toFinset⟩) unique
        fun id hid => List.mem_toFinset.mpr (answers.mem_iff.mp (List.mem_append_left _ hid))
      refine ⟨⟨m.callIds.toFinset \ (results.map ToolMessage.toolCallId).toFinset,
        seen ∪ m.callIds.toFinset⟩, ?_, Or.inr allowed⟩
      rw [List.foldlM_cons, asked, ok_bind]
      exact taken

end Grammar

/-- `validate_history` accepts exactly the histories whose call ids are nonempty and distinct and whose
messages follow the grammar, and returns exactly the ids without a result. -/
theorem history_grammar (messages : List BaseMessage) (allowPending : Bool) (ids : Finset String) :
    validateHistory messages allowPending = .ok ids ↔
      ((∀ id ∈ callIds messages, id ≠ "") ∧ (callIds messages).Nodup ∧
        Turns allowPending messages) ∧
      ids = (callIds messages).toFinset \ (resultIds messages).toFinset := by
  unfold validateHistory
  rw [bind_eq_ok]
  constructor
  · rintro ⟨q, run, h⟩
    obtain ⟨_, ends, h⟩ := bind_eq_ok.mp h
    have read := Pairing.Read.of_run run
    refine ⟨⟨fun id hid => (read.named id hid).1, read.distinct, ?_⟩, ?_⟩
    · exact turns_of_run _ le_rfl run (require_eq_ok.mp ends)
    · rw [← pure_eq_ok.mp h, Pairing.pending_of_run run (Finset.Subset.refl _), Finset.empty_union]
  · rintro ⟨⟨named, distinct, turns⟩, rfl⟩
    obtain ⟨q, run, ends⟩ := run_of_turns turns ∅
      (fun id hid => ⟨named id hid, Finset.notMem_empty _⟩) distinct
    refine ⟨q, run, bind_eq_ok.mpr ⟨⟨⟩, require_eq_ok.mpr ends, ?_⟩⟩
    rw [Pairing.pending_of_run run (Finset.Subset.refl _), Finset.empty_union]
    rfl

end MiHarness
