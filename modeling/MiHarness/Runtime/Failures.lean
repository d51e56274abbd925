import Mathlib.Data.List.Dedup
import Mathlib.Data.List.Infix
import MiHarness.Gateway.Messages

/-!
# Repeated failures

Before every model call the middleware goes over the messages of the thread, collects the signatures of
the failing tool results since the last successful one, and stops the run when the last three are the
same.  The thread holds the messages of all runs of the branch.  `repeated_failure` says when the run
that is stopped has failed three times itself.
-/

namespace MiHarness

/-- The keys under which an assistant message records its calls. -/
def AIMessage.keys (m : AIMessage) : List String := m.toolCalls.filterMap ToolCall.id

/-- The text of a request, of which `content_hash` takes the hash. -/
def ToolCall.request (call : ToolCall) : String :=
  canonicalJson (.object [("name", .string call.name), ("args", call.args)])

/-- The calls of a message as they are found in `calls`, the last one first. -/
def AIMessage.requests (m : AIMessage) : List (String × String) :=
  (m.toolCalls.filterMap fun call => call.id.map (·, call.request)).reverse

/-- What `abefore_model` collects from the messages. -/
structure FailureScan where
  calls : List (String × String) := []
  signatures : List String := []

/-- One turn of the loop.  `digest` is the hash of a text. -/
def FailureScan.next (digest : String → String) (s : FailureScan) : BaseMessage → FailureScan
  | .ai m => { s with calls := (m.requests.map fun entry => (entry.1, digest entry.2)) ++ s.calls }
  | .tool t =>
      match t.status with
      | .error =>
          { s with signatures :=
              s.signatures ++ [(s.calls.lookup t.toolCallId).getD t.toolCallId] }
      | .success => { s with signatures := [] }
  | _ => s

/-- `len(signatures) >= 3 and len(set(signatures[-3:])) == 1` -/
def FailureScan.Repeated (s : FailureScan) : Prop :=
  3 ≤ s.signatures.length ∧ (s.signatures.drop (s.signatures.length - 3)).dedup.length = 1

instance (s : FailureScan) : Decidable s.Repeated := inferInstanceAs (Decidable (_ ∧ _))

inductive BeforeModelError where
  /-- What the boundary of the host raises. -/
  | boundary
  | stepLimit
  | repeatedToolFailure
deriving DecidableEq, Repr

/-- `abefore_model` up to the admission of new input.  `bounded` says that the boundary raises. -/
def beforeModel (digest : String → String) (bounded : Bool) (steps limit : Nat)
    (messages : List BaseMessage) : Except BeforeModelError Unit :=
  if bounded then .error .boundary
  else if limit ≤ steps then .error .stepLimit
  else if (messages.foldl (FailureScan.next digest) {}).Repeated then .error .repeatedToolFailure
  else .ok ()

/-! ## The thread of a run -/

/-- Every result answers a call that stands before it, or one of `known`. -/
def Answered (known : List String) : List BaseMessage → Prop
  | [] => True
  | .ai m :: rest => Answered (m.keys ++ known) rest
  | .tool t :: rest => t.toolCallId ∈ known ∧ Answered known rest
  | _ :: rest => Answered known rest

/-- The messages of a thread: those of the earlier runs of the branch and those of the run itself.  The
tools of a run are called for the calls of its own messages. -/
structure RunThread where
  earlier : List BaseMessage
  own : List BaseMessage
  earlierAnswered : Answered [] earlier
  ownAnswered : Answered [] own

def RunThread.messages (t : RunThread) : List BaseMessage := t.earlier ++ t.own

/-- The results of a thread in order, each with the request that it answers. -/
def toolResults (calls : List (String × String)) :
    List BaseMessage → List (Option String × ToolStatus)
  | [] => []
  | .ai m :: rest => toolResults (m.requests ++ calls) rest
  | .tool t :: rest => (calls.lookup t.toolCallId, t.status) :: toolResults calls rest
  | _ :: rest => toolResults calls rest

/-- The last three results are failures of one request. -/
def FailsThrice (results : List (Option String × ToolStatus)) : Prop :=
  ∃ before request, results = before ++ List.replicate 3 (some request, .error)

/-! ## Calls and results -/

theorem lookup_map {f : String → String} (id : String) : ∀ calls : List (String × String),
    (calls.map fun entry => (entry.1, f entry.2)).lookup id = (calls.lookup id).map f
  | [] => rfl
  | entry :: calls => by
      rw [List.map_cons, List.lookup_cons, List.lookup_cons, lookup_map id calls]
      cases id == entry.1 <;> rfl

theorem lookup_append (id : String) : ∀ calls calls' : List (String × String),
    (calls ++ calls').lookup id = (calls.lookup id).or (calls'.lookup id)
  | [], _ => rfl
  | entry :: calls, calls' => by
      rw [List.cons_append, List.lookup_cons, List.lookup_cons, lookup_append id calls calls']
      cases id == entry.1 <;> rfl

theorem lookup_isSome {id : String} : ∀ {calls : List (String × String)},
    id ∈ calls.map Prod.fst → (calls.lookup id).isSome
  | entry :: calls, h => by
      rw [List.lookup_cons]
      cases found : id == entry.1 with
      | true => rfl
      | false =>
          rcases List.mem_cons.mp h with same | h
          · exact absurd (beq_iff_eq.mpr same) (by simp [found])
          · exact lookup_isSome h

/-- Every key of `known` is found in `calls`. -/
def Recorded (known : List String) (calls : List (String × String)) : Prop :=
  ∀ id ∈ known, (calls.lookup id).isSome

theorem Recorded.calls {known : List String} {calls : List (String × String)}
    (h : Recorded known calls) (m : AIMessage) : Recorded (m.keys ++ known) (m.requests ++ calls) := by
  intro id hid
  rw [lookup_append, Option.isSome_or, Bool.or_eq_true]
  rcases List.mem_append.mp hid with hid | hid
  · left
    obtain ⟨call, hcall, key⟩ := List.mem_filterMap.mp hid
    apply lookup_isSome
    unfold AIMessage.requests
    rw [List.map_reverse, List.mem_reverse]
    refine List.mem_map.mpr ⟨(id, call.request), List.mem_filterMap.mpr ⟨call, hcall, ?_⟩, rfl⟩
    rw [key, Option.map_some]
  · exact .inr (h id hid)

section Results

variable {known : List String} {calls : List (String × String)} {l : List BaseMessage}

/-- Every result of a thread answers a request. -/
theorem toolResults_some : ∀ {l : List BaseMessage} {known : List String}
    {calls : List (String × String)}, Answered known l → Recorded known calls →
    ∀ r ∈ toolResults calls l, r.1.isSome
  | [], _, _, _, _ => fun _ h => absurd h List.not_mem_nil
  | .human :: l, _, _, answered, recorded => toolResults_some (l := l) answered recorded
  | .system :: l, _, _, answered, recorded => toolResults_some (l := l) answered recorded
  | .ai m :: l, _, _, answered, recorded => toolResults_some (l := l) answered (recorded.calls m)
  | .tool t :: l, _, _, answered, recorded => by
      intro r hr
      rcases List.mem_cons.mp hr with rfl | hr
      · exact recorded _ answered.1
      · exact toolResults_some answered.2 recorded r hr

/-- The calls of earlier runs do not matter to the results of a run. -/
theorem toolResults_own (others : List (String × String)) : ∀ {l : List BaseMessage}
    {known : List String} {calls : List (String × String)}, Answered known l →
    Recorded known calls → toolResults (calls ++ others) l = toolResults calls l
  | [], _, _, _, _ => rfl
  | .human :: l, _, _, answered, recorded => toolResults_own others (l := l) answered recorded
  | .system :: l, _, _, answered, recorded => toolResults_own others (l := l) answered recorded
  | .ai m :: l, _, calls, answered, recorded => by
      have later := toolResults_own others (l := l) answered (recorded.calls m)
      rw [List.append_assoc] at later
      exact later
  | .tool t :: l, _, calls, answered, recorded => by
      have found : (calls ++ others).lookup t.toolCallId = calls.lookup t.toolCallId := by
        rw [lookup_append]
        exact Option.or_of_isSome (recorded _ answered.1)
      unfold toolResults
      rw [found, toolResults_own others answered.2 recorded]

theorem toolResults_append (l' : List BaseMessage) : ∀ (l : List BaseMessage)
    (calls : List (String × String)), ∃ others,
      toolResults calls (l ++ l') = toolResults calls l ++ toolResults others l'
  | [], calls => ⟨calls, rfl⟩
  | .human :: l, calls => toolResults_append l' l calls
  | .system :: l, calls => toolResults_append l' l calls
  | .ai m :: l, calls => toolResults_append l' l (m.requests ++ calls)
  | .tool t :: l, calls => by
      obtain ⟨others, h⟩ := toolResults_append l' l calls
      exact ⟨others, congrArg (_ :: ·) h⟩

theorem Answered.mono : ∀ {l : List BaseMessage} {known known' : List String},
    Answered known l → known ⊆ known' → Answered known' l
  | [], _, _, _, _ => trivial
  | .human :: l, _, _, h, sub => Answered.mono (l := l) h sub
  | .system :: l, _, _, h, sub => Answered.mono (l := l) h sub
  | .ai _ :: l, _, _, h, sub =>
      Answered.mono (l := l) h (List.append_subset.mpr
        ⟨List.subset_append_left .., fun _ hid => List.mem_append_right _ (sub hid)⟩)
  | .tool _ :: _, _, _, h, sub => ⟨sub h.1, h.2.mono sub⟩

theorem Answered.append {l' : List BaseMessage} (h' : Answered [] l') : ∀ {l : List BaseMessage}
    {known : List String}, Answered known l → Answered known (l ++ l')
  | [], _, _ => h'.mono (List.nil_subset _)
  | .human :: l, _, h => Answered.append h' (l := l) h
  | .system :: l, _, h => Answered.append h' (l := l) h
  | .ai _ :: l, _, h => Answered.append h' (l := l) h
  | .tool _ :: _, _, h => ⟨h.1, Answered.append h' h.2⟩

end Results

theorem RunThread.answered (t : RunThread) : Answered [] t.messages :=
  Answered.append t.ownAnswered t.earlierAnswered

theorem RunThread.results (t : RunThread) :
    toolResults [] t.messages = toolResults [] t.earlier ++ toolResults [] t.own := by
  obtain ⟨others, h⟩ := toolResults_append t.own t.earlier []
  have own : toolResults ([] ++ others) t.own = toolResults [] t.own :=
    toolResults_own others t.ownAnswered fun _ h => absurd h List.not_mem_nil
  rw [List.nil_append] at own
  exact h.trans (by rw [own])

/-! ## The scan and the results -/

/-- The failing requests since the last success. -/
def streak (digest : String → String) (signatures : List String)
    (results : List (Option String × ToolStatus)) : List String :=
  results.foldl (fun signatures r => match r.2 with
    | .error => signatures ++ [digest (r.1.getD "")]
    | .success => []) signatures

variable {digest : String → String}

theorem scan_signatures : ∀ {l : List BaseMessage} {known signatures : List String}
    {calls : List (String × String)}, Answered known l → Recorded known calls →
    (l.foldl (FailureScan.next digest)
      { calls := calls.map fun entry => (entry.1, digest entry.2), signatures }).signatures =
      streak digest signatures (toolResults calls l)
  | [], _, _, _, _, _ => rfl
  | .human :: l, _, _, _, answered, recorded => scan_signatures (l := l) answered recorded
  | .system :: l, _, _, _, answered, recorded => scan_signatures (l := l) answered recorded
  | .ai m :: l, _, signatures, calls, answered, recorded => by
      have later : _ = streak digest signatures (toolResults (m.requests ++ calls) l) :=
        scan_signatures (l := l) answered (recorded.calls m)
      rw [List.map_append] at later
      exact later
  | .tool t :: l, _, signatures, calls, answered, recorded => by
      obtain ⟨request, found⟩ := Option.isSome_iff_exists.mp (recorded _ answered.1)
      have signed : ((calls.map fun entry => (entry.1, digest entry.2)).lookup
          t.toolCallId).getD t.toolCallId = digest ((calls.lookup t.toolCallId).getD "") := by
        rw [lookup_map, found]
        rfl
      cases status : t.status with
      | success =>
          rw [List.foldl_cons]
          unfold FailureScan.next toolResults
          simp only [status]
          exact scan_signatures answered.2 recorded
      | error =>
          rw [List.foldl_cons]
          unfold FailureScan.next toolResults
          simp only [status, signed]
          exact scan_signatures answered.2 recorded

theorem dedup_three (a b c : String) : [a, b, c].dedup.length = 1 ↔ a = b ∧ b = c := by
  by_cases bc : b = c
  · subst bc
    by_cases ab : a = b
    · subst ab
      simp
    · simp [ab]
  · by_cases ac : a = c
    · simp [ac, bc, List.dedup_cons_of_mem, Ne.symm bc]
    · by_cases ab : a = b <;> simp [ab, ac, bc]

theorem streak_length_le : ∀ (results : List (Option String × ToolStatus)) (signatures : List String),
    (streak digest signatures results).length ≤ signatures.length + results.length
  | [], _ => le_rfl
  | (request, .success) :: results, signatures => by
      have later := streak_length_le results []
      rw [List.length_nil] at later
      rw [List.length_cons]
      exact later.trans (by omega)
  | (request, .error) :: results, signatures => by
      have later := streak_length_le results (signatures ++ [digest (request.getD "")])
      rw [List.length_append, List.length_singleton] at later
      rw [List.length_cons]
      exact later.trans (by omega)

theorem last_three {results : List (Option String × ToolStatus)} (long : 3 ≤ results.length) :
    ∃ before a b c, results = before ++ [a, b, c] := by
  have three : (results.drop (results.length - 3)).length = 3 := by
    rw [List.length_drop]
    omega
  obtain ⟨a, b, c, h⟩ := List.length_eq_three.mp three
  exact ⟨results.take (results.length - 3), a, b, c, by rw [← h, List.take_append_drop]⟩

theorem FailsThrice.three_le {results : List (Option String × ToolStatus)} (h : FailsThrice results) :
    3 ≤ results.length := by
  obtain ⟨before, request, rfl⟩ := h
  rw [List.length_append, List.length_replicate]
  exact Nat.le_add_left ..

theorem failsThrice_three {before : List (Option String × ToolStatus)}
    {x y z : Option String × ToolStatus} : FailsThrice (before ++ [x, y, z]) ↔
      ∃ request, x = (some request, .error) ∧ y = (some request, .error) ∧
        z = (some request, .error) := by
  constructor
  · rintro ⟨before', request, h⟩
    have same := List.append_inj_right' h rfl
    simp only [List.replicate, List.cons.injEq, and_true] at same
    exact ⟨request, same⟩
  · rintro ⟨request, rfl, rfl, rfl⟩
    exact ⟨before, request, rfl⟩

/-- The scan stops if and only if the last three results are failures of one request. -/
theorem streak_repeated (free : Function.Injective digest) (calls : List (String × String))
    {results : List (Option String × ToolStatus)} (requested : ∀ r ∈ results, r.1.isSome) :
    (FailureScan.mk calls (streak digest [] results)).Repeated ↔ FailsThrice results := by
  by_cases long : 3 ≤ results.length
  · obtain ⟨before, ⟨ra, sa⟩, ⟨rb, sb⟩, ⟨rc, sc⟩, rfl⟩ := last_three long
    have request : ∀ r ∈ [(ra, sa), (rb, sb), (rc, sc)], ∃ text, r.1 = some text := fun r hr =>
      Option.isSome_iff_exists.mp (requested r (List.mem_append_right _ hr))
    obtain ⟨a, rfl⟩ := request (ra, sa) (by simp)
    obtain ⟨b, rfl⟩ := request (rb, sb) (by simp)
    obtain ⟨c, rfl⟩ := request (rc, sc) (by simp)
    rw [failsThrice_three]
    unfold FailureScan.Repeated streak
    rw [List.foldl_append]
    generalize before.foldl _ _ = signatures
    -- A success among the three clears the signatures, so fewer than three are left.
    cases sc with
    | success => simp
    | error =>
        cases sb with
        | success => simp
        | error =>
            cases sa with
            | success => simp
            | error =>
                have last : (signatures ++ [digest a] ++ [digest b] ++ [digest c]).drop
                    (signatures.length + 1 + 1 + 1 - 3) = [digest a, digest b, digest c] := by
                  simp
                simp only [List.foldl_cons, List.foldl_nil, Option.getD_some, List.length_append,
                  List.length_singleton, last, dedup_three, free.eq_iff, Prod.mk.injEq,
                  Option.some.injEq, and_true]
                constructor
                · rintro ⟨_, rfl, rfl⟩
                  exact ⟨a, rfl, rfl, rfl⟩
                · rintro ⟨r, rfl, rfl, rfl⟩
                  exact ⟨by omega, rfl, rfl⟩
  · constructor
    · intro h
      have short : (streak digest [] results).length ≤ 0 + results.length :=
        streak_length_le results []
      rw [Nat.zero_add] at short
      exact absurd (h.1.trans short) long
    · exact fun h => absurd h.three_le long

theorem beforeModel_repeated {bounded : Bool} {steps limit : Nat} {messages : List BaseMessage} :
    beforeModel digest bounded steps limit messages = .error .repeatedToolFailure ↔
      bounded = false ∧ steps < limit ∧
        (messages.foldl (FailureScan.next digest) {}).Repeated := by
  unfold beforeModel
  cases bounded with
  | true => simp
  | false =>
      by_cases steps' : limit ≤ steps
      · simp [steps', Nat.not_lt.mpr steps']
      · by_cases stops : (messages.foldl (FailureScan.next digest) {}).Repeated
        · simp [steps', stops, Nat.lt_of_not_le steps']
        · simp [steps', stops]

theorem RunThread.repeated_iff (free : Function.Injective digest) (t : RunThread) :
    (t.messages.foldl (FailureScan.next digest) {}).Repeated ↔
      FailsThrice (toolResults [] t.messages) := by
  have nothing : Recorded [] [] := fun _ h => absurd h List.not_mem_nil
  have scanned : (t.messages.foldl (FailureScan.next digest) {}).signatures =
      streak digest [] (toolResults [] t.messages) := scan_signatures t.answered nothing
  rw [← streak_repeated free [] (toolResults_some t.answered nothing)]
  unfold FailureScan.Repeated
  rw [scanned]

/-- The last three results of a run are the last three of the thread. -/
theorem FailsThrice.own {earlier own : List (Option String × ToolStatus)}
    (h : FailsThrice (earlier ++ own)) (long : 3 ≤ own.length) : FailsThrice own := by
  obtain ⟨before, request, same⟩ := h
  have whole : List.replicate 3 (some request, ToolStatus.error) <:+ earlier ++ own := ⟨before, same.symm⟩
  obtain ⟨start, h⟩ := List.suffix_of_suffix_length_le whole (List.suffix_append earlier own)
    (by rw [List.length_replicate]; exact long)
  exact ⟨start, request, h.symm⟩

/-- A run is stopped for repeated failures only if its own last three results are failures of one
request: this holds of a thread if and only if the run has three results of its own, or the last three
results of the thread are no failures of one request. -/
theorem repeated_failure (digest : String → String) (free : Function.Injective digest)
    (t : RunThread) :
    (∀ bounded steps limit,
      beforeModel digest bounded steps limit t.messages = .error .repeatedToolFailure →
      FailsThrice (toolResults [] t.own)) ↔
    (3 ≤ (toolResults [] t.own).length ∨ ¬FailsThrice (toolResults [] t.messages)) := by
  constructor
  · intro h
    by_cases fails : FailsThrice (toolResults [] t.messages)
    · refine .inl (FailsThrice.three_le (h false 0 1 ?_))
      exact beforeModel_repeated.mpr ⟨rfl, Nat.one_pos, (t.repeated_iff free).mpr fails⟩
    · exact .inr fails
  · intro condition bounded steps limit stops
    have fails := (t.repeated_iff free).mp (beforeModel_repeated.mp stops).2.2
    rcases condition with long | whole
    · rw [t.results] at fails
      exact fails.own long
    · exact absurd fails whole

namespace Sample

def echo (id : String) : AIMessage :=
  { toolCalls := [{ name := "echo", args := .object [], id := some id }] }

def failure (id : String) : BaseMessage := .tool { toolCallId := id, status := .error }

/-- The first run fails twice and ends, and the second one fails once. -/
def twoRuns : RunThread where
  earlier := [.human, .ai (echo "1"), failure "1", .ai (echo "2"), failure "2", .ai {}]
  own := [.human, .ai (echo "3"), failure "3"]
  earlierAnswered := by simp [Answered, echo, failure, AIMessage.keys]
  ownAnswered := by simp [Answered, echo, failure, AIMessage.keys]

/-- The request that fails. -/
def request : String := ({ name := "echo", args := .object [], id := none } : ToolCall).request

/-- A run that fails three times itself. -/
def failingRun : RunThread where
  earlier := []
  own := [.human, .ai (echo "1"), failure "1", .ai (echo "2"), failure "2", .ai (echo "3"), failure "3"]
  earlierAnswered := trivial
  ownAnswered := by simp [Answered, echo, failure, AIMessage.keys]

theorem failingRun_fails : FailsThrice (toolResults [] failingRun.own) := ⟨[], request, rfl⟩

theorem twoRuns_fails : FailsThrice (toolResults [] twoRuns.messages) := ⟨[], request, rfl⟩

end Sample

theorem repeated_failure_once :
    beforeModel id false 0 1 Sample.failingRun.messages = .error .repeatedToolFailure ∧
      FailsThrice (toolResults [] Sample.failingRun.own) := by
  have stops : beforeModel id false 0 1 Sample.failingRun.messages = .error .repeatedToolFailure :=
    beforeModel_repeated.mpr ⟨rfl, Nat.one_pos,
      (Sample.failingRun.repeated_iff Function.injective_id).mpr Sample.failingRun_fails⟩
  exact ⟨stops, (repeated_failure id Function.injective_id Sample.failingRun).mpr
    (.inl Sample.failingRun_fails.three_le) false 0 1 stops⟩

/-- The second run is stopped at its first failure. -/
theorem repeated_failure_earlier : ¬∀ (digest : String → String), Function.Injective digest →
    ∀ (t : RunThread) (bounded : Bool) (steps limit : Nat),
      beforeModel digest bounded steps limit t.messages = .error .repeatedToolFailure →
      FailsThrice (toolResults [] t.own) := by
  intro claim
  have stops : beforeModel id false 0 1 Sample.twoRuns.messages = .error .repeatedToolFailure :=
    beforeModel_repeated.mpr ⟨rfl, Nat.one_pos,
      (Sample.twoRuns.repeated_iff Function.injective_id).mpr Sample.twoRuns_fails⟩
  have fails := claim id Function.injective_id Sample.twoRuns false 0 1 stops
  exact absurd fails.three_le (by decide)

end MiHarness
