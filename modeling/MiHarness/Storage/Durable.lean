import MiHarness.Storage.Objects

/-!
# What the artifact store keeps

However puts, reads, crashes and rollbacks come between each other, a read returns a range of what was put
for its artifact, or is refused, also when objects are damaged before they are verified (`range_served`).
Where none is damaged, every artifact keeps its object, which is what was put, and can be read
(`artifact_kept`).
-/

namespace MiHarness

open Library Library.Utf8

/-- What a put has checked of a content. -/
structure ObjectHost.Admits (host : ObjectHost) (content : Bytes) (mimeType : String) : Prop where
  size : content.length ≤ host.maxBytes
  imageSize : isImage mimeType = true → content.length ≤ PutCall.maxImageBytes
  image : isImage mimeType = true → host.validateImage content mimeType = none

/-- A row that was entered for a content. -/
structure ArtifactRow.Of (host : ObjectHost) (row : ArtifactRow) (content : Bytes) : Prop where
  hash : row.contentHash = host.digest content
  size : row.sizeBytes = content.length
  key : row.storageKey = ⟨host.domain row.ownerId row.workspaceId, row.contentHash⟩
  admits : host.Admits content row.mimeType

/-- What is known of a put. -/
structure PutCall.Sound (host : ObjectHost) (call : PutCall) : Prop where
  size : call.written.length ≤ host.maxBytes
  imageSize : isImage call.mimeType = true → call.written.length ≤ maxImageBytes
  image : call.phase ≠ .receiving → isImage call.mimeType = true →
    host.validateImage call.written call.mimeType = none

/-- A row of an artifact that was put. -/
def ArtifactRow.Put (host : ObjectHost) (uploaded : List Uploaded) (artifactId : ArtifactId)
    (row : ArtifactRow) : Prop :=
  ∃ content, ⟨artifactId, row.ownerId, content⟩ ∈ uploaded ∧ row.Of host content

/-- The object of a row has its hash. -/
def ArtifactRow.Matches (host : ObjectHost) (objects : Table StorageKey Bytes) (row : ArtifactRow) : Prop :=
  ∃ content, objects.get? row.storageKey = some content ∧ host.digest content = row.contentHash

/-- A range of what was put for an artifact. -/
def Served.Of (uploaded : List Uploaded) (s : Served) : Prop :=
  ∃ content, ⟨s.artifactId, s.ownerId, content⟩ ∈ uploaded ∧ s.bytes = (content.drop s.offset).take s.length

namespace ObjectWorld

/-- What holds whatever is damaged. -/
structure Sound (host : ObjectHost) (w : ObjectWorld) : Prop where
  rows : ∀ artifactId row, w.rows.get? artifactId = some row → row.Put host w.uploaded artifactId
  puts : ∀ i call, w.puts i = some call → call.Sound host
  reads : ∀ i call, w.reads i = some call → call.row.Put host w.uploaded call.artifactId
  verified : ∀ i call, w.reads i = some call → call.phase = .reading → call.row.Matches host w.objects
  served : ∀ s ∈ w.served, s.Of w.uploaded

/-- What holds where nothing is damaged. -/
structure Kept (host : ObjectHost) (w : ObjectWorld) : Prop where
  objects : ∀ key content, w.objects.get? key = some content → host.digest content = key.hashed
  rows : ∀ artifactId row, w.rows.get? artifactId = some row → (w.objects.get? row.storageKey).isSome
  puts : ∀ i call, w.puts i = some call →
    call.phase = .sizing ∨ call.phase = .hashing ∨ call.phase = .recording →
      (w.objects.get? (call.key host)).isSome
  reads : ∀ i call, w.reads i = some call → (w.objects.get? call.row.storageKey).isSome

variable {host : ObjectHost} {w w' : ObjectWorld} {i : Nat}

/-! ## One call -/

theorem setPut_eq_some {call : Option PutCall} {j : Nat} {x : PutCall}
    (h : (w.setPut i call).puts j = some x) : (j = i ∧ call = some x) ∨ (j ≠ i ∧ w.puts j = some x) := by
  unfold setPut at h
  dsimp only at h
  by_cases same : j = i
  · subst same
    rw [Function.update_self] at h
    exact .inl ⟨rfl, h⟩
  · rw [Function.update_of_ne same] at h
    exact .inr ⟨same, h⟩

theorem setRead_eq_some {call : Option ReadCall} {j : Nat} {x : ReadCall}
    (h : (w.setRead i call).reads j = some x) : (j = i ∧ call = some x) ∨ (j ≠ i ∧ w.reads j = some x) := by
  unfold setRead at h
  dsimp only at h
  by_cases same : j = i
  · subst same
    rw [Function.update_self] at h
    exact .inl ⟨rfl, h⟩
  · rw [Function.update_of_ne same] at h
    exact .inr ⟨same, h⟩

/-- A put goes on as a sound one, or ends. -/
theorem Sound.setPut (sound : w.Sound host) {call : Option PutCall}
    (sound' : ∀ x, call = some x → x.Sound host) : (w.setPut i call).Sound host where
  rows := sound.rows
  puts j x h := by
    rcases setPut_eq_some h with ⟨-, same⟩ | ⟨-, before⟩
    · exact sound' x same
    · exact sound.puts j x before
  reads := sound.reads
  verified := sound.verified
  served := sound.served

/-- A read goes on as a sound one, or ends. -/
theorem Sound.setRead (sound : w.Sound host) {call : Option ReadCall}
    (put : ∀ x, call = some x → x.row.Put host w.uploaded x.artifactId)
    (verified : ∀ x, call = some x → x.phase = .reading → x.row.Matches host w.objects) :
    (w.setRead i call).Sound host where
  rows := sound.rows
  puts := sound.puts
  reads j x h := by
    rcases setRead_eq_some h with ⟨-, same⟩ | ⟨-, before⟩
    · exact put x same
    · exact sound.reads j x before
  verified j x h := by
    rcases setRead_eq_some h with ⟨-, same⟩ | ⟨-, before⟩
    · exact verified x same
    · exact sound.verified j x before
  served := sound.served

theorem Sound.endPut (sound : w.Sound host) : (w.setPut i none).Sound host :=
  sound.setPut fun _ same => by cases same

theorem Sound.endRead (sound : w.Sound host) : (w.setRead i none).Sound host :=
  sound.setRead (fun _ same => by cases same) fun _ same => by cases same

/-- The directory changes, but not under a read. -/
theorem Sound.setObjects (sound : w.Sound host) {objects : Table StorageKey Bytes}
    (keeps : ∀ i call, w.reads i = some call → call.phase = .reading → call.row.Matches host objects) :
    Sound host { w with objects } where
  rows := sound.rows
  puts := sound.puts
  reads := sound.reads
  verified := keeps
  served := sound.served

theorem Kept.setPut (kept : w.Kept host) {call : Option PutCall}
    (placed : ∀ x, call = some x → x.phase = .sizing ∨ x.phase = .hashing ∨ x.phase = .recording →
      (w.objects.get? (x.key host)).isSome) : (w.setPut i call).Kept host where
  objects := kept.objects
  rows := kept.rows
  puts j x h := by
    rcases setPut_eq_some h with ⟨-, same⟩ | ⟨-, before⟩
    · exact placed x same
    · exact kept.puts j x before
  reads := kept.reads

theorem Kept.endPut (kept : w.Kept host) : (w.setPut i none).Kept host :=
  kept.setPut fun _ same => by cases same

theorem Kept.setRead (kept : w.Kept host) {call : Option ReadCall}
    (there : ∀ x, call = some x → (w.objects.get? x.row.storageKey).isSome) :
    (w.setRead i call).Kept host where
  objects := kept.objects
  rows := kept.rows
  puts := kept.puts
  reads j x h := by
    rcases setRead_eq_some h with ⟨-, same⟩ | ⟨-, before⟩
    · exact there x same
    · exact kept.reads j x before

theorem Kept.endRead (kept : w.Kept host) : (w.setRead i none).Kept host :=
  kept.setRead fun _ same => by cases same

end ObjectWorld

theorem checkSize_eq_ok {objects : Table StorageKey Bytes} {key : StorageKey} {size : Nat} {x : Unit} :
    checkSize objects key size = .ok x ↔
      ∃ content, objects.get? key = some content ∧ content.length = size := by
  rw [checkSize, require_eq_ok, Option.any_eq_true]
  simp

theorem ObjectHost.checkDigest_eq_ok {host : ObjectHost} {objects : Table StorageKey Bytes} {key : StorageKey}
    {digest : Hash} {x : Unit} : host.checkDigest objects key digest = .ok x ↔
      ∃ content, objects.get? key = some content ∧ host.digest content = digest := by
  rw [checkDigest, bind_eq_ok]
  simp only [orThrow_eq_ok, require_eq_ok]

theorem PutCall.receive_eq_ok {host : ObjectHost} {call call' : PutCall} {chunk : Bytes} :
    call.receive host chunk = .ok call' ↔ (call.written ++ chunk).length ≤ host.maxBytes ∧
      (isImage call.mimeType = true → (call.written ++ chunk).length ≤ maxImageBytes) ∧
      { call with written := call.written ++ chunk } = call' := by
  simp only [receive, bind_eq_ok, require_eq_ok, exists_const, Except.ok.injEq]

theorem PutCall.Sound.receive {host : ObjectHost} {call call' : PutCall} {chunk : Bytes}
    (here : call.phase = .receiving) (received : call.receive host chunk = .ok call') : call'.Sound host := by
  obtain ⟨size, imageSize, rfl⟩ := PutCall.receive_eq_ok.mp received
  exact ⟨size, imageSize, fun other => absurd here other⟩

theorem PutCall.Sound.finish {host : ObjectHost} {call call' : PutCall} (sound : call.Sound host)
    (finished : call.finish host = .ok call') : call'.Sound host := by
  unfold PutCall.finish at finished
  split at finished
  · cases finished
  · next valid =>
      cases finished
      refine ⟨sound.size, sound.imageSize, fun _ image => ?_⟩
      have image : isImage call.mimeType = true := image
      rwa [if_pos image] at valid

namespace ObjectWorld

variable {host : ObjectHost} {w w' : ObjectWorld} {i : Nat}

/-! ## Steps -/

theorem Sound.proceed (sound : w.Sound host) {call : PutCall} (here : w.puts i = some call)
    (fresh : ArtifactId) (now : Time) : (w.proceed host i call fresh now).Sound host := by
  have known := sound.puts i call here
  have later {phase : PutPhase} (further : call.phase ≠ .receiving) :
      PutCall.Sound host { call with phase } :=
    ⟨known.size, known.imageSize, fun _ => known.image further⟩
  unfold ObjectWorld.proceed
  split
  case h_1 receiving => exact sound.setPut fun x same => known.finish (toOption_eq_some.mp same)
  case h_2 placing =>
    refine sound.setPut fun x same => ?_
    cases same
    exact later (by rw [placing]; decide)
  case h_3 moving =>
    have moved : (w.setPut i (some { call with phase := .sizing })).Sound host :=
      sound.setPut fun x same => by
        cases same
        exact later (by rw [moving]; decide)
    refine moved.setObjects fun j read there reading => ?_
    -- Another content of the same key has the hash of the key.
    rw [ArtifactRow.Matches, Table.get?_put]
    split
    case isTrue same =>
      obtain ⟨content, -, of⟩ := sound.reads j read there
      refine ⟨call.written, rfl, ?_⟩
      rw [of.key] at same
      exact (congrArg StorageKey.hashed same).symm
    case isFalse => exact sound.verified j read there reading
  case h_4 sizing =>
    refine sound.setPut fun x same => ?_
    obtain ⟨_, -, rest⟩ := bind_eq_ok.mp (toOption_eq_some.mp same)
    cases rest
    exact later (by rw [sizing]; decide)
  case h_5 hashing =>
    refine sound.setPut fun x same => ?_
    obtain ⟨_, -, rest⟩ := bind_eq_ok.mp (toOption_eq_some.mp same)
    cases rest
    exact later (by rw [hashing]; decide)
  case h_6 recording =>
    split
    case h_2 => exact sound.endPut
    case h_1 rows inserted =>
      -- What has been put stays, and one artifact is added.
      have longer {artifactId : ArtifactId} {row : ArtifactRow} (put : row.Put host w.uploaded artifactId) :
          row.Put host (⟨fresh, call.ownerId, call.written⟩ :: w.uploaded) artifactId := by
        obtain ⟨content, logged, of⟩ := put
        exact ⟨content, List.mem_cons_of_mem _ logged, of⟩
      obtain ⟨-, found⟩ := Table.insert?_eq_some inserted
      exact {
        rows := fun artifactId row here => by
          rw [found] at here
          split at here
          · next same =>
              cases here
              refine ⟨call.written, by rw [same]; exact List.mem_cons_self .., rfl, rfl, rfl, ?_⟩
              exact ⟨known.size, known.imageSize, known.image (by rw [recording]; decide)⟩
          · exact longer (sound.rows artifactId row here)
        puts := (sound.endPut (i := i)).puts
        reads := fun j read there => longer (sound.reads j read there)
        verified := sound.verified
        served := fun s hs => by
          obtain ⟨content, logged, range⟩ := sound.served s hs
          exact ⟨content, List.mem_cons_of_mem _ logged, range⟩ }

theorem Sound.serve (sound : w.Sound host) (collisionFree : Function.Injective host.digest) {call : ReadCall}
    (here : w.reads i = some call) : (w.serve host i call).Sound host := by
  have put := sound.reads i call here
  unfold ObjectWorld.serve
  split
  case h_1 sizing =>
    refine sound.setRead (fun x same => ?_) fun x same reading => ?_
    all_goals
      obtain ⟨_, -, rest⟩ := bind_eq_ok.mp (toOption_eq_some.mp same)
      cases rest
    · exact put
    · cases reading
  case h_2 hashing =>
    refine sound.setRead (fun x same => ?_) fun x same _ => ?_
    all_goals
      obtain ⟨_, verified, rest⟩ := bind_eq_ok.mp (toOption_eq_some.mp same)
      cases rest
    · exact put
    · exact ObjectHost.checkDigest_eq_ok.mp verified
  case h_3 reading =>
    have ended := sound.endRead (i := i)
    split
    case h_2 => exact ended
    case h_1 content found =>
      refine { ended with served := fun s hs => ?_ }
      rcases List.mem_cons.mp hs with rfl | hs
      · obtain ⟨content', found', hash⟩ := sound.verified i call here reading
        obtain ⟨put, logged, of⟩ := put
        rw [found] at found'
        cases found'
        rw [of.hash] at hash
        rw [collisionFree hash]
        exact ⟨put, logged, rfl⟩
      · exact sound.served s hs

/-- Nothing that is there is lost when a content is put at its own key. -/
theorem Kept.moves (kept : w.Kept host) {key : StorageKey} {content : Bytes}
    (own : host.digest content = key.hashed) : Kept host { w with objects := w.objects.put key content } where
  objects key' content' found := by
    rw [Table.get?_put] at found
    split at found
    · next same =>
        cases found
        rw [same, own]
    · exact kept.objects key' content' found
  rows artifactId row found := by
    rw [Table.get?_put]
    split
    · rfl
    · exact kept.rows artifactId row found
  puts j call here placed := by
    rw [Table.get?_put]
    split
    · rfl
    · exact kept.puts j call here placed
  reads j call here := by
    rw [Table.get?_put]
    split
    · rfl
    · exact kept.reads j call here

theorem Kept.proceed (kept : w.Kept host) {call : PutCall} (here : w.puts i = some call)
    (fresh : ArtifactId) (now : Time) : (w.proceed host i call fresh now).Kept host := by
  unfold ObjectWorld.proceed
  split
  case h_1 receiving =>
    refine kept.setPut fun x same placed => ?_
    have finished := toOption_eq_some.mp same
    unfold PutCall.finish at finished
    split at finished <;> cases finished
    simp at placed
  case h_2 placing =>
    refine kept.setPut fun x same placed => ?_
    cases same
    by_cases found : (w.objects.get? (call.key host)).isSome
    · exact found
    · rw [if_neg found] at placed
      simp at placed
  case h_3 moving =>
    have own : host.digest call.written = (call.key host).hashed := rfl
    refine (kept.moves own).setPut fun x same _ => ?_
    cases same
    show ((w.objects.put (call.key host) call.written).get? (call.key host)).isSome
    rw [Table.get?_put, if_pos rfl]
    rfl
  case h_4 sizing =>
    refine kept.setPut fun x same _ => ?_
    obtain ⟨_, -, rest⟩ := bind_eq_ok.mp (toOption_eq_some.mp same)
    cases rest
    exact kept.puts i call here (.inl sizing)
  case h_5 hashing =>
    refine kept.setPut fun x same _ => ?_
    obtain ⟨_, -, rest⟩ := bind_eq_ok.mp (toOption_eq_some.mp same)
    cases rest
    exact kept.puts i call here (.inr (.inl hashing))
  case h_6 recording =>
    split
    case h_2 => exact kept.endPut
    case h_1 rows inserted =>
      obtain ⟨-, found⟩ := Table.insert?_eq_some inserted
      refine { kept.endPut (i := i) with rows := fun artifactId row there => ?_ }
      rw [found] at there
      split at there
      · cases there
        exact kept.puts i call here (.inr (.inr recording))
      · exact kept.rows artifactId row there

theorem Kept.serve (kept : w.Kept host) {call : ReadCall} (here : w.reads i = some call) :
    (w.serve host i call).Kept host := by
  have there := kept.reads i call here
  unfold ObjectWorld.serve
  split
  case h_1 sizing =>
    refine kept.setRead fun x same => ?_
    obtain ⟨_, -, rest⟩ := bind_eq_ok.mp (toOption_eq_some.mp same)
    cases rest
    exact there
  case h_2 hashing =>
    refine kept.setRead fun x same => ?_
    obtain ⟨_, -, rest⟩ := bind_eq_ok.mp (toOption_eq_some.mp same)
    cases rest
    exact there
  case h_3 reading =>
    have ended := kept.endRead (i := i)
    split
    · exact ⟨ended.objects, ended.rows, ended.puts, ended.reads⟩
    · exact ended

theorem openRead_eq_ok {artifactId : ArtifactId} {ownerId : OwnerId} {offset length : Int} {call : ReadCall} :
    w.openRead host artifactId ownerId offset length = .ok call ↔
      (0 ≤ offset ∧ 0 ≤ length ∧ length ≤ host.maxBytes) ∧ ∃ row, w.rows.get? artifactId = some row ∧
        row.ownerId = ownerId ∧
        { artifactId, row, offset := offset.toNat, length := length.toNat } = call := by
  rw [openRead, bind_eq_ok]
  simp only [require_eq_ok, bind_eq_ok, orThrow_eq_ok, exists_const, Except.ok.injEq]

/-! ## Runs -/

theorem Sound.next (sound : w.Sound host) (collisionFree : Function.Injective host.digest) {a : ObjectAction}
    (apart : w.Apart a) (step : w.next host a = some w') : w'.Sound host := by
  cases a with
  | put i ownerId workspaceId mimeType provenance displayName =>
      unfold ObjectWorld.next at step
      dsimp only at step
      split at step
      case h_1 => cases step
      case h_2 =>
        split at step <;> cases step
        · refine sound.setPut fun x same => ?_
          cases same
          exact ⟨Nat.zero_le _, fun _ => Nat.zero_le _, fun other => absurd rfl other⟩
        · exact sound
  | chunk i bytes =>
      unfold ObjectWorld.next at step
      dsimp only at step
      split at step
      case h_1 call here =>
        split at step
        case isTrue receiving =>
          cases step
          exact sound.setPut fun x same => PutCall.Sound.receive receiving (toOption_eq_some.mp same)
        case isFalse => cases step
      case h_2 => cases step
  | proceed i fresh now =>
      obtain ⟨call, here, rfl⟩ := Option.map_eq_some_iff.mp step
      exact sound.proceed here fresh now
  | read i artifactId ownerId offset length =>
      unfold ObjectWorld.next at step
      dsimp only at step
      split at step
      case h_1 => cases step
      case h_2 =>
        cases step
        refine sound.setRead (fun x same => ?_) fun x same reading => ?_
        all_goals obtain ⟨-, row, found, -, rfl⟩ := openRead_eq_ok.mp (toOption_eq_some.mp same)
        · exact sound.rows artifactId row found
        · cases reading
  | serve i =>
      obtain ⟨call, here, rfl⟩ := Option.map_eq_some_iff.mp step
      exact sound.serve collisionFree here
  | fail i =>
      cases step
      exact sound.endPut.endRead
  | rollback artifactId =>
      cases step
      refine { sound with rows := fun artifactId' row found => ?_ }
      rw [Table.get?_erase] at found
      split at found
      · cases found
      · exact sound.rows artifactId' row found
  | crash =>
      cases step
      exact {
        rows := sound.rows
        puts := fun _ _ here => by cases here
        reads := fun _ _ here => by cases here
        verified := fun _ _ here => by cases here
        served := sound.served }
  | damage key content =>
      cases step
      refine sound.setObjects fun j call there reading => ?_
      have other : call.row.storageKey ≠ key := apart j call there reading
      obtain ⟨content', found, hash⟩ := sound.verified j call there reading
      refine ⟨content', ?_, hash⟩
      cases content with
      | none => rw [Table.get?_erase, if_neg other, found]
      | some content => rw [Table.get?_put, if_neg other, found]

theorem Kept.next (kept : w.Kept host) {a : ObjectAction} (undamaged : w.Undamaged a)
    (step : w.next host a = some w') : w'.Kept host := by
  cases a with
  | put i ownerId workspaceId mimeType provenance displayName =>
      unfold ObjectWorld.next at step
      dsimp only at step
      split at step
      case h_1 => cases step
      case h_2 =>
        split at step <;> cases step
        · refine kept.setPut fun x same placed => ?_
          cases same
          simp at placed
        · exact kept
  | chunk i bytes =>
      unfold ObjectWorld.next at step
      dsimp only at step
      split at step
      case h_1 call here =>
        split at step
        case isTrue receiving =>
          cases step
          refine kept.setPut fun x same placed => ?_
          obtain ⟨-, -, rfl⟩ := PutCall.receive_eq_ok.mp (toOption_eq_some.mp same)
          rw [show ({ call with written := call.written ++ bytes } : PutCall).phase = .receiving from receiving]
            at placed
          simp at placed
        case isFalse => cases step
      case h_2 => cases step
  | proceed i fresh now =>
      obtain ⟨call, here, rfl⟩ := Option.map_eq_some_iff.mp step
      exact kept.proceed here fresh now
  | read i artifactId ownerId offset length =>
      unfold ObjectWorld.next at step
      dsimp only at step
      split at step
      case h_1 => cases step
      case h_2 =>
        cases step
        refine kept.setRead fun x same => ?_
        obtain ⟨-, row, found, -, rfl⟩ := openRead_eq_ok.mp (toOption_eq_some.mp same)
        exact kept.rows artifactId row found
  | serve i =>
      obtain ⟨call, here, rfl⟩ := Option.map_eq_some_iff.mp step
      exact kept.serve here
  | fail i =>
      cases step
      exact kept.endPut.endRead
  | rollback artifactId =>
      cases step
      refine { kept with rows := fun artifactId' row found => ?_ }
      rw [Table.get?_erase] at found
      split at found
      · cases found
      · exact kept.rows artifactId' row found
  | crash =>
      cases step
      exact {
        objects := kept.objects
        rows := kept.rows
        puts := fun _ _ here => by cases here
        reads := fun _ _ here => by cases here }
  | damage key content => exact undamaged.elim

theorem Undamaged.apart {a : ObjectAction} (undamaged : w.Undamaged a) : w.Apart a := by
  cases a with
  | damage => exact undamaged.elim
  | _ => trivial

theorem sound_init : Sound host {} where
  rows _ _ found := by cases found
  puts _ _ here := by cases here
  reads _ _ here := by cases here
  verified _ _ here := by cases here
  served _ hs := by cases hs

theorem kept_init : Kept host {} where
  objects _ _ found := by cases found
  rows _ _ found := by cases found
  puts _ _ here := by cases here
  reads _ _ here := by cases here

theorem sound (collisionFree : Function.Injective host.digest)
    (reachable : ((objectSystem host).restrict Apart).Reachable w) : w.Sound host := by
  refine reachable.invariant (fun w start => ?_) fun w a w' _ known step =>
    known.next collisionFree step.1 step.2
  cases (show w = {} from start)
  exact sound_init

theorem kept (collisionFree : Function.Injective host.digest)
    (reachable : ((objectSystem host).restrict Undamaged).Reachable w) : w.Sound host ∧ w.Kept host := by
  refine reachable.invariant (I := fun w => w.Sound host ∧ w.Kept host) (fun w start => ?_)
    fun w a w' _ known step => ⟨known.1.next collisionFree step.1.apart step.2, known.2.next step.1 step.2⟩
  cases (show w = {} from start)
  exact ⟨sound_init, kept_init⟩

/-- The object of a row is what was put. -/
theorem Kept.content (kept : w.Kept host) (collisionFree : Function.Injective host.digest)
    {artifactId : ArtifactId} {row : ArtifactRow} (put : row.Put host w.uploaded artifactId)
    (there : (w.objects.get? row.storageKey).isSome) : ∃ content,
      ⟨artifactId, row.ownerId, content⟩ ∈ w.uploaded ∧ row.Of host content ∧
        w.objects.get? row.storageKey = some content := by
  obtain ⟨content, logged, of⟩ := put
  obtain ⟨found, object⟩ := Option.isSome_iff_exists.mp there
  have hash : host.digest found = row.contentHash := by
    rw [kept.objects _ _ object, of.key]
  rw [of.hash] at hash
  exact ⟨content, logged, of, collisionFree hash ▸ object⟩

end ObjectWorld

/-! ## Verified objects -/

theorem ObjectHost.verify_eq_ok {host : ObjectHost} {objects : Table StorageKey Bytes} {row : ArtifactRow} :
    host.verify objects row = .ok () ↔ ∃ content, objects.get? row.storageKey = some content ∧
      content.length = row.sizeBytes ∧ host.digest content = row.contentHash := by
  rw [verify, bind_eq_ok]
  simp only [checkSize_eq_ok, checkDigest_eq_ok]
  constructor
  · rintro ⟨-, ⟨content, found, size⟩, content', found', hash⟩
    rw [found] at found'
    cases found'
    exact ⟨content, found, size, hash⟩
  · rintro ⟨content, found, size, hash⟩
    exact ⟨(), ⟨content, found, size⟩, content, found, hash⟩

theorem ObjectHost.integrity_eq_nil {host : ObjectHost} {objects : Table StorageKey Bytes}
    {rows : Table ArtifactId ArtifactRow} : host.integrity objects rows = [] ↔
      ∀ artifactId row, rows.get? artifactId = some row → host.verify objects row = .ok () := by
  rw [integrity, List.map_eq_nil_iff, Table.select, List.filter_eq_nil_iff]
  constructor
  · intro none' artifactId row found
    have passes := none' (artifactId, row) (Table.mem_rows.mpr found)
    cases verified : host.verify objects row with
    | ok => rfl
    | error e => simp [verified, Except.toOption] at passes
  · intro all e he
    simp [all e.1 e.2 (Table.mem_rows.mp he), Except.toOption]

/-- A read returns a range of what was put for its artifact, whatever is damaged before it is verified. -/
theorem range_served {host : ObjectHost} (collisionFree : Function.Injective host.digest) {w : ObjectWorld}
    (reachable : ((objectSystem host).restrict ObjectWorld.Apart).Reachable w) :
    ∀ s ∈ w.served, ∃ content, ⟨s.artifactId, s.ownerId, content⟩ ∈ w.uploaded ∧
      s.bytes = (content.drop s.offset).take s.length :=
  (ObjectWorld.sound collisionFree reachable).served

namespace ObjectWorld

variable {host : ObjectHost} {w : ObjectWorld} {i : Nat} {call : ReadCall}

/-! ## Reading -/

theorem next_serve (here : w.reads i = some call) : w.next host (.serve i) = some (w.serve host i call) := by
  rw [ObjectWorld.next, here]
  rfl

theorem serve_sizing (sizing : call.phase = .sizing)
    (sized : checkSize w.objects call.row.storageKey call.row.sizeBytes = .ok ()) :
    w.serve host i call = w.setRead i (some { call with phase := .hashing }) := by
  unfold ObjectWorld.serve
  rw [sizing]
  dsimp only
  rw [sized]
  rfl

theorem serve_hashing (hashing : call.phase = .hashing)
    (verified : host.checkDigest w.objects call.row.storageKey call.row.contentHash = .ok ()) :
    w.serve host i call = w.setRead i (some { call with phase := .reading }) := by
  unfold ObjectWorld.serve
  rw [hashing]
  dsimp only
  rw [verified]
  rfl

theorem serve_reading (reading : call.phase = .reading) {content : Bytes}
    (found : w.objects.get? call.row.storageKey = some content) :
    w.serve host i call = { w.setRead i none with
      served := ⟨call.artifactId, call.row.ownerId, call.offset, call.length,
        (content.drop call.offset).take call.length⟩ :: w.served } := by
  unfold ObjectWorld.serve
  rw [reading]
  dsimp only
  rw [found]

/-- A read goes on as it does when its object has the content. -/
def goesOn (w : ObjectWorld) (i : Nat) (call : ReadCall) (content : Bytes) : ObjectWorld :=
  match call.phase with
  | .sizing => w.setRead i (some { call with phase := .hashing })
  | .hashing => w.setRead i (some { call with phase := .reading })
  | .reading => { w.setRead i none with
      served := ⟨call.artifactId, call.row.ownerId, call.offset, call.length,
        (content.drop call.offset).take call.length⟩ :: w.served }

theorem serve_goesOn {content : Bytes} (object : w.objects.get? call.row.storageKey = some content)
    (size : content.length = call.row.sizeBytes) (hash : host.digest content = call.row.contentHash) :
    w.serve host i call = w.goesOn i call content := by
  unfold goesOn
  cases phase : call.phase with
  | sizing => exact serve_sizing phase (checkSize_eq_ok.mpr ⟨content, object, size⟩)
  | hashing => exact serve_hashing phase (ObjectHost.checkDigest_eq_ok.mpr ⟨content, object, hash⟩)
  | reading => exact serve_reading phase object

/-- A read of a range is opened. -/
theorem next_read {artifactId : ArtifactId} {row : ArtifactRow}
    (found : w.rows.get? artifactId = some row) (free : w.reads i = none) {offset length : Int}
    (range : 0 ≤ offset ∧ 0 ≤ length ∧ length ≤ host.maxBytes) :
    w.next host (.read i artifactId row.ownerId offset length) =
      some (w.setRead i (some { artifactId, row, offset := offset.toNat, length := length.toNat })) := by
  rw [ObjectWorld.next, free]
  dsimp only
  rw [openRead_eq_ok.mpr ⟨range, row, found, rfl, rfl⟩]
  rfl

end ObjectWorld

namespace Sample

/-- The digest of bytes is a text of them. -/
def cabinet : ObjectHost where
  digest content := String.ofList (content.map fun b => Char.ofNat b.toNat)
  domain ownerId workspaceId := String.ofList [Char.ofNat ownerId, Char.ofNat workspaceId]
  maxBytes := 16
  validateImage _ _ := none
  workspaceOwner workspaceId := if workspaceId = 1 then some 65 else none
  baseName name := name

theorem cabinet_collisionFree : Function.Injective cabinet.digest := by
  have chars : Function.Injective fun b : UInt8 => Char.ofNat b.toNat := fun a b h => by
    have valid (b : UInt8) : (Char.ofNat b.toNat).toNat = b.toNat := by
      have small : b.toNat < 256 := b.toNat_lt
      rw [Char.ofNat, dif_pos (.inl (by omega))]
      rfl
    apply UInt8.toNat_inj.mp
    rw [← valid a, ← valid b]
    exact congrArg Char.toNat h
  intro a b h
  exact chars.list_map (String.ofList_injective h)

def storing : List ObjectAction :=
  [.put 0 65 1 "text/plain" "upload" "note.txt", .chunk 0 [72], .chunk 0 [105]] ++
    List.replicate 6 (.proceed 0 7 1)

/-- Five bytes from the second on are asked for, and there is one. -/
def ranging : List ObjectAction :=
  [.read 0 7 65 1 5, .serve 0, .serve 0, .serve 0]

/-- The row of the artifact. -/
def note : ArtifactRow :=
  ⟨65, 1, "Hi", "text/plain", 2, "upload", ⟨"A\x01", "Hi"⟩, "note.txt", 1⟩

/-- The read has verified the object. -/
def readingNote : ReadCall := { artifactId := 7, row := note, offset := 1, length := 5, phase := .reading }

theorem verified : (System.runs (ObjectWorld.next cabinet) {} (storing ++ ranging.take 3)).any
    (fun w => w.rows.get? 7 = some note ∧ w.reads 0 = some readingNote) = true := by
  decide

theorem ranged : (System.runs (ObjectWorld.next cabinet) {} (storing ++ ranging)).map ObjectWorld.served =
    some [⟨7, 65, 1, 5, [105]⟩] := by
  decide

end Sample

theorem range_served_ranged : ∃ w, System.runs (ObjectWorld.next Sample.cabinet) {}
      (Sample.storing ++ Sample.ranging) = some w ∧
    w.served = [⟨7, 65, 1, 5, [105]⟩] ∧
    ∃ content, ⟨7, 65, content⟩ ∈ w.uploaded ∧ [105] = (content.drop 1).take 5 := by
  obtain ⟨w, ran, served⟩ := Option.map_eq_some_iff.mp Sample.ranged
  have apart : ∀ a ∈ Sample.storing ++ Sample.ranging, ∀ t : ObjectWorld, t.Apart a := by
    simp [Sample.storing, Sample.ranging, ObjectWorld.Apart, List.replicate]
  have returned := range_served Sample.cabinet_collisionFree (System.Reachable.runsWithin apart (.init rfl) ran)
  exact ⟨w, ran, served, returned _ (by rw [served]; exact List.mem_cons_self ..)⟩

/-- Where nothing is damaged, every artifact has its object, which is what was put, so that none is reported.
Its owner can open a read of each range, and an open read goes on to its end, whatever comes between. -/
theorem artifact_kept {host : ObjectHost} (collisionFree : Function.Injective host.digest) {w : ObjectWorld}
    (reachable : ((objectSystem host).restrict ObjectWorld.Undamaged).Reachable w) :
    host.integrity w.objects w.rows = [] ∧
    (∀ artifactId row, w.rows.get? artifactId = some row →
      (∃ content, ⟨artifactId, row.ownerId, content⟩ ∈ w.uploaded ∧ row.Of host content ∧
        w.objects.get? row.storageKey = some content) ∧
      ∀ i (offset length : Int), w.reads i = none → 0 ≤ offset → 0 ≤ length → length ≤ host.maxBytes →
        w.next host (.read i artifactId row.ownerId offset length) =
          some (w.setRead i (some { artifactId, row, offset := offset.toNat, length := length.toNat }))) ∧
    ∀ i call, w.reads i = some call → ∃ content,
      ⟨call.artifactId, call.row.ownerId, content⟩ ∈ w.uploaded ∧ call.row.Of host content ∧
        w.next host (.serve i) = some (w.goesOn i call content) := by
  obtain ⟨sound, kept⟩ := ObjectWorld.kept collisionFree reachable
  refine ⟨ObjectHost.integrity_eq_nil.mpr fun artifactId row found => ?_, fun artifactId row found => ⟨?_, ?_⟩,
    fun i call here => ?_⟩
  · obtain ⟨content, -, of, object⟩ :=
      kept.content collisionFree (sound.rows artifactId row found) (kept.rows artifactId row found)
    exact ObjectHost.verify_eq_ok.mpr ⟨content, object, of.size.symm, of.hash.symm⟩
  · exact kept.content collisionFree (sound.rows artifactId row found) (kept.rows artifactId row found)
  · intro i offset length free above above' below
    exact ObjectWorld.next_read found free ⟨above, above', below⟩
  · obtain ⟨content, logged, of, object⟩ :=
      kept.content collisionFree (sound.reads i call here) (kept.reads i call here)
    refine ⟨content, logged, of, ?_⟩
    rw [ObjectWorld.next_serve here, ObjectWorld.serve_goesOn object of.size.symm of.hash.symm]

/-- A read of a stored artifact has been verified, and returns what there is of its range. -/
theorem artifact_kept_stored : ∃ w content w',
    System.runs (ObjectWorld.next Sample.cabinet) {} (Sample.storing ++ Sample.ranging.take 3) = some w ∧
    ⟨7, 65, content⟩ ∈ w.uploaded ∧ w.next Sample.cabinet (.serve 0) = some w' ∧
    w'.served = ⟨7, 65, 1, 5, (content.drop 1).take 5⟩ :: w.served := by
  obtain ⟨w, ran, h⟩ := (Option.any_eq_true ..).mp Sample.verified
  obtain ⟨-, here⟩ := of_decide_eq_true h
  have undamaged : ∀ a ∈ Sample.storing ++ Sample.ranging.take 3, ∀ t : ObjectWorld, t.Undamaged a := by
    simp [Sample.storing, Sample.ranging, ObjectWorld.Undamaged, List.replicate]
  obtain ⟨-, -, reads⟩ :=
    artifact_kept Sample.cabinet_collisionFree (System.Reachable.runsWithin undamaged (.init rfl) ran)
  obtain ⟨content, logged, -, goes⟩ := reads 0 Sample.readingNote here
  exact ⟨w, content, _, ran, logged, goes, rfl⟩

end MiHarness
