import MiHarness.Client.EventStream

/-!
# The inline draft

A draft is a list of texts and attachments.  The editor counts positions in it: one for each UTF-16 unit
of a text, and one for an attachment.  `replaceDraftRange` cuts a range of positions out of a draft and
puts blocks in its place, and then joins the texts that have come to stand next to each other.

`flatten` gives the positions in a row.  There `replaceDraftRange` is a splice of lists
(`replaceDraftRange_splices`).
-/

namespace MiHarness

inductive AttachmentKind where
  | image | fileReference
deriving DecidableEq, Repr

inductive UploadState where
  | uploading | ready | failed
deriving DecidableEq, Repr

structure DraftAttachment where
  id : String
  type : AttachmentKind
  state : UploadState
  artifactRef : Option JsonData := none
  label : JsString
  error : Option JsString := none

inductive DraftBlock where
  | text (id : String) (chars : JsString)
  | attachment (a : DraftAttachment)

abbrev Draft := List DraftBlock

/-- `emptyDraft`, with what `crypto.randomUUID` gives. -/
def emptyDraft (uuid : String) : Draft := [.text uuid []]

def DraftBlock.length : DraftBlock → Nat
  | .text _ chars => chars.length
  | .attachment _ => 1

def draftLength (blocks : Draft) : Nat := blocks.foldl (fun n b => n + b.length) 0

/-! ## Replacing a range -/

/-- What the first loop of `replaceDraftRange` has sorted. -/
structure DraftCut where
  before : Draft := []
  after : Draft := []
  offset : Nat := 0

/-- One turn of the first loop.  At most one block has a tail, which gets the new id. -/
def DraftCut.next (start stop : Nat) (uuid : String) (cut : DraftCut) (block : DraftBlock) :
    DraftCut :=
  let offset := cut.offset + block.length
  if offset ≤ start then { cut with before := cut.before ++ [block], offset }
  else if stop ≤ cut.offset then { cut with after := cut.after ++ [block], offset }
  else match block with
    | .text id chars =>
        { before := if cut.offset < start then
            cut.before ++ [.text id (chars.take (start - cut.offset))] else cut.before
          after := if stop < offset then
            cut.after ++ [.text uuid (chars.drop (stop - cut.offset))] else cut.after
          offset }
    | .attachment _ => { cut with offset }

/-- One turn of the second loop. -/
def mergeBlock (result : Draft) (block : DraftBlock) : Draft :=
  match block, result.getLast? with
  | .text _ chars, some (.text id last) => result.dropLast ++ [.text id (last ++ chars)]
  | .text _ [], _ => result
  | block, _ => result ++ [block]

def replaceDraftRange (blocks : Draft) (start stop : Nat) (added : Draft) (uuid : String) : Draft :=
  let cut := blocks.foldl (DraftCut.next start stop uuid) {}
  let result := (cut.before ++ added ++ cut.after).foldl mergeBlock []
  if result.isEmpty then emptyDraft uuid else result

/-! ## Positions -/

/-- What stands at one position. -/
inductive DraftUnit where
  | char (u : UInt16)
  | attachment (a : DraftAttachment)

def DraftBlock.units : DraftBlock → List DraftUnit
  | .text _ chars => chars.map .char
  | .attachment a => [.attachment a]

def Draft.flatten (blocks : Draft) : List DraftUnit := blocks.flatMap DraftBlock.units

@[simp] theorem DraftBlock.length_units (block : DraftBlock) : block.units.length = block.length := by
  cases block with
  | text id chars => exact List.length_map ..
  | attachment a => rfl

@[simp] theorem Draft.flatten_nil : Draft.flatten [] = [] := rfl

@[simp] theorem Draft.flatten_append (a b : Draft) :
    Draft.flatten (a ++ b) = Draft.flatten a ++ Draft.flatten b := List.flatMap_append ..

@[simp] theorem Draft.flatten_cons (block : DraftBlock) (b : Draft) :
    Draft.flatten (block :: b) = block.units ++ Draft.flatten b := List.flatMap_cons ..

theorem draftLength_eq (blocks : Draft) : draftLength blocks = (Draft.flatten blocks).length := by
  have total : ∀ n, blocks.foldl (fun n b => n + b.length) n = n + (Draft.flatten blocks).length := by
    induction blocks with
    | nil => exact fun n => rfl
    | cons block rest ih =>
        intro n
        rw [List.foldl_cons, ih, Draft.flatten_cons, List.length_append, DraftBlock.length_units,
          Nat.add_assoc]
  rw [draftLength, total, Nat.zero_add]

/-! ## The cut -/

section Cut

variable {start stop : Nat} {uuid : String} {cut : DraftCut} {done : Draft} {block : DraftBlock}

/-- The blocks that are done have been cut at `start` and at `stop`. -/
structure DraftCut.Cuts (start stop : Nat) (cut : DraftCut) (done : Draft) : Prop where
  offset : cut.offset = (Draft.flatten done).length
  before : Draft.flatten cut.before = (Draft.flatten done).take start
  after : Draft.flatten cut.after = (Draft.flatten done).drop stop

theorem DraftCut.Cuts.nothing : DraftCut.Cuts start stop {} [] :=
  ⟨rfl, List.take_nil.symm, List.drop_nil.symm⟩

theorem DraftCut.Cuts.next (cuts : cut.Cuts start stop done) (ordered : start ≤ stop) :
    (cut.next start stop uuid block).Cuts start stop (done ++ [block]) := by
  obtain ⟨offset, before, after⟩ := cuts
  have flat : Draft.flatten (done ++ [block]) = Draft.flatten done ++ block.units := by simp
  have moved : cut.offset + block.length = (Draft.flatten (done ++ [block])).length := by
    rw [flat, List.length_append, DraftBlock.length_units, offset]
  unfold DraftCut.next
  dsimp only
  split
  case isTrue first =>
    -- the whole block is before the range
    refine ⟨moved, ?_, ?_⟩
    · rw [List.take_of_length_le (moved ▸ first), flat, Draft.flatten_append, before,
        List.take_of_length_le (by omega)]
      simp
    · rw [List.drop_of_length_le (by omega), after, List.drop_of_length_le (by omega)]
  case isFalse reaches =>
    split
    case isTrue last =>
      refine ⟨moved, ?_, ?_⟩
      · rw [flat, List.take_append_of_le_length (by omega), before]
      · rw [flat, List.drop_append_of_le_length (by omega), Draft.flatten_append, after]
        simp
    case isFalse overlaps =>
      cases block with
      | attachment a =>
          -- an attachment that the range meets is within it
          have one : DraftBlock.length (.attachment a) = 1 := rfl
          refine ⟨moved, ?_, ?_⟩
          · rw [flat, List.take_append_of_le_length (by omega), before]
          · rw [List.drop_of_length_le (by omega), after, List.drop_of_length_le (by omega)]
      | text id chars =>
          have size : DraftBlock.length (.text id chars) = chars.length := rfl
          have units : DraftBlock.units (.text id chars) = chars.map .char := rfl
          refine ⟨moved, ?_, ?_⟩
          · rw [flat, List.take_append, units, ← offset, ← before]
            dsimp only
            split
            · simp [DraftBlock.units, List.map_take]
            · rw [Nat.sub_eq_zero_of_le (by omega), List.take_zero, List.append_nil]
          · rw [flat, List.drop_append, units, ← offset, ← after]
            dsimp only
            split
            · simp [DraftBlock.units, List.map_drop]
            · rw [List.drop_of_length_le (by rw [List.length_map]; omega), List.append_nil]

theorem foldl_cuts (ordered : start ≤ stop) (uuid : String) (blocks : Draft) (cuts : cut.Cuts start stop done) :
    (blocks.foldl (DraftCut.next start stop uuid) cut).Cuts start stop (done ++ blocks) := by
  induction blocks generalizing cut done with
  | nil => rwa [List.append_nil]
  | cons block rest ih =>
      rw [List.foldl_cons, List.append_cons]
      exact ih (cuts.next ordered)

end Cut

/-! ## Joining -/

def DraftBlock.IsText : DraftBlock → Prop
  | .text .. => True
  | .attachment _ => False

/-- A text that has units. -/
def DraftBlock.Filled : DraftBlock → Prop
  | .text _ chars => chars ≠ []
  | .attachment _ => True

/-- No text is empty, and no text follows another. -/
structure Draft.Joined (blocks : Draft) : Prop where
  filled : ∀ block ∈ blocks, block.Filled
  apart : blocks.IsChain fun a b => ¬(a.IsText ∧ b.IsText)

section Join

variable {result : Draft} {block : DraftBlock}

theorem Draft.Joined.nil : Draft.Joined [] := ⟨fun _ mem => absurd mem List.not_mem_nil, .nil⟩

/-- A draft without an empty text has positions, unless it has no blocks. -/
theorem Draft.Joined.nil_of_flatten (joined : result.Joined) (none : result.flatten = []) : result = [] := by
  cases result with
  | nil => rfl
  | cons block rest =>
      have filled := joined.filled block List.mem_cons_self
      have nothing := (List.append_eq_nil_iff.mp none).1
      cases block with
      | text id chars => exact absurd (List.map_eq_nil_iff.mp nothing) filled
      | attachment a => cases nothing

theorem flatten_mergeBlock :
    Draft.flatten (mergeBlock result block) = Draft.flatten result ++ block.units := by
  rcases List.eq_nil_or_concat result with rfl | ⟨init, last, rfl⟩
  · cases block with
    | attachment a => rfl
    | text id chars =>
        cases chars with
        | nil => rfl
        | cons u chars => simp [mergeBlock]
  · cases block with
    | attachment a => simp [mergeBlock]
    | text id chars =>
        cases last with
        | text id' chars' => simp [mergeBlock, DraftBlock.units]
        | attachment a =>
            cases chars with
            | nil => simp [mergeBlock, DraftBlock.units]
            | cons u chars => simp [mergeBlock]

/-- A last block is replaced by one that is a text if it was. -/
theorem Draft.Joined.replace {init : Draft} {last new : DraftBlock} (joined : Draft.Joined (init ++ [last]))
    (filled : new.Filled) (same : new.IsText → last.IsText) : Draft.Joined (init ++ [new]) where
  filled b mem := by
    rcases List.mem_append.mp mem with mem | mem
    · exact joined.filled b (List.mem_append_left _ mem)
    · rwa [List.mem_singleton.mp mem]
  apart := by
    obtain ⟨init, -, ends⟩ := List.isChain_append.mp joined.apart
    refine List.isChain_append.mpr ⟨init, .singleton _, fun a ha b hb both => ?_⟩
    cases hb
    exact ends a ha last rfl ⟨both.1, same both.2⟩

theorem Draft.Joined.push (joined : result.Joined) (filled : block.Filled)
    (apart : ∀ last ∈ result.getLast?, ¬(last.IsText ∧ block.IsText)) :
    Draft.Joined (result ++ [block]) where
  filled b mem := by
    rcases List.mem_append.mp mem with mem | mem
    · exact joined.filled b mem
    · rwa [List.mem_singleton.mp mem]
  apart := by
    refine List.isChain_append.mpr ⟨joined.apart, .singleton _, fun a ha b hb => ?_⟩
    cases hb
    exact apart a ha

theorem Draft.Joined.merge (joined : result.Joined) (block : DraftBlock) :
    Draft.Joined (mergeBlock result block) := by
  cases block with
  | attachment a => exact joined.push trivial fun last _ both => both.2
  | text id chars =>
      rcases List.eq_nil_or_concat result with rfl | ⟨init, last, rfl⟩
      · cases chars with
        | nil => exact joined
        | cons u chars => exact joined.push (List.cons_ne_nil u chars) fun last mem => by cases mem
      cases last with
      | text id' chars' =>
          have whole : chars' ≠ [] := joined.filled (.text id' chars') (by simp)
          have filled : chars' ++ chars ≠ [] := List.append_ne_nil_of_left_ne_nil whole chars
          have same : mergeBlock (init ++ [.text id' chars']) (.text id chars) =
              init ++ [.text id' (chars' ++ chars)] := by simp [mergeBlock]
          rw [List.concat_eq_append] at joined ⊢
          exact same ▸ joined.replace filled fun _ => trivial
      | attachment a =>
          rw [List.concat_eq_append] at joined ⊢
          cases chars with
          | nil =>
              have same : mergeBlock (init ++ [.attachment a]) (.text id []) = init ++ [.attachment a] := by
                simp [mergeBlock]
              rwa [same]
          | cons u chars =>
              have same : mergeBlock (init ++ [.attachment a]) (.text id (u :: chars)) =
                  init ++ [.attachment a] ++ [.text id (u :: chars)] := by simp [mergeBlock]
              refine same ▸ joined.push (List.cons_ne_nil u chars) fun last mem both => ?_
              rw [List.getLast?_concat] at mem
              cases mem
              exact both.1

theorem foldl_mergeBlock (blocks : Draft) (joined : result.Joined) :
    Draft.Joined (blocks.foldl mergeBlock result) ∧
      Draft.flatten (blocks.foldl mergeBlock result) = Draft.flatten result ++ Draft.flatten blocks := by
  induction blocks generalizing result with
  | nil => exact ⟨joined, (List.append_nil _).symm⟩
  | cons block rest ih =>
      obtain ⟨joined, flat⟩ := ih (joined.merge block)
      refine ⟨joined, flat.trans ?_⟩
      rw [flatten_mergeBlock, Draft.flatten_cons, List.append_assoc]

end Join

/-! ## The splice -/

section Splice

variable {start stop : Nat}

theorem flatten_replaceDraftRange (blocks added : Draft) (uuid : String) (ordered : start ≤ stop) :
    Draft.flatten (replaceDraftRange blocks start stop added uuid) =
      (Draft.flatten blocks).take start ++ Draft.flatten added ++ (Draft.flatten blocks).drop stop := by
  have cuts := foldl_cuts ordered uuid blocks .nothing
  have flat := (foldl_mergeBlock
    ((blocks.foldl (DraftCut.next start stop uuid) {}).before ++ added ++
      (blocks.foldl (DraftCut.next start stop uuid) {}).after) .nil).2
  rw [Draft.flatten_append, Draft.flatten_append, cuts.before, cuts.after, List.nil_append,
    Draft.flatten_nil, List.nil_append] at flat
  unfold replaceDraftRange
  dsimp only
  split
  case isTrue empty =>
    -- the text of an empty draft has no positions either
    rwa [List.isEmpty_iff.mp empty] at flat
  case isFalse => exact flat

/-- What is put in lies where the range was, so the editor can place its caret after it. -/
theorem draftLength_replaceDraftRange (blocks added : Draft) (uuid : String) (ordered : start ≤ stop)
    (within : stop ≤ draftLength blocks) :
    draftLength (replaceDraftRange blocks start stop added uuid) + (stop - start) =
      draftLength blocks + draftLength added := by
  rw [draftLength_eq, flatten_replaceDraftRange blocks added uuid ordered]
  rw [draftLength_eq] at within ⊢
  rw [draftLength_eq, List.length_append, List.length_append, List.length_take, List.length_drop]
  omega

/-- Cutting, putting in and joining is a splice of the positions.  An attachment is one position, so it is
kept as it is or left out as a whole. -/
theorem replaceDraftRange_splices (blocks added : Draft) (uuid : String) (ordered : start ≤ stop) :
    Draft.flatten (replaceDraftRange blocks start stop added uuid) =
        (Draft.flatten blocks).take start ++ Draft.flatten added ++ (Draft.flatten blocks).drop stop ∧
      (Draft.flatten (replaceDraftRange blocks start stop added uuid) ≠ [] →
        (replaceDraftRange blocks start stop added uuid).Joined) ∧
      (Draft.flatten (replaceDraftRange blocks start stop added uuid) = [] →
        replaceDraftRange blocks start stop added uuid = emptyDraft uuid) := by
  refine ⟨flatten_replaceDraftRange blocks added uuid ordered, ?_⟩
  have joined := (foldl_mergeBlock
    ((blocks.foldl (DraftCut.next start stop uuid) {}).before ++ added ++
      (blocks.foldl (DraftCut.next start stop uuid) {}).after) .nil).1
  unfold replaceDraftRange
  dsimp only
  split
  case isTrue empty =>
    have none : Draft.flatten (emptyDraft uuid) = [] := rfl
    exact ⟨fun some => absurd none some, fun _ => rfl⟩
  case isFalse some =>
    refine ⟨fun _ => joined, fun none => ?_⟩
    exact absurd (List.isEmpty_iff.mpr (joined.nil_of_flatten none)) some

/-- A range within two texts and over an attachment between them. -/
theorem splice_across :
    Draft.flatten (replaceDraftRange [.text "a" [104, 105], .attachment ⟨"f", .image, .ready, none, [], none⟩,
        .text "b" [], .text "c" [111, 107]] 1 4 [.text "d" [45]] "e") =
      [.char 104, .char 45, .char 107] := by
  rw [(replaceDraftRange_splices _ _ _ (by decide)).1]
  rfl

end Splice

end MiHarness
