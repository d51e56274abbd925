import MiHarness.Skills.Registry

/-!
# What a refresh does

A refresh stores snapshots, and writes records.  The record of a skill is one that a scan of its files has
made, or the old one of a skill that its source no longer has (`Written`).  It is made from the record that
there was when the refresh began, and says what was found of the files then (`Finds`).

A refresh that returns has looked at each skill of the sources it was for (`refresh_wp`).
-/

namespace MiHarness

open Library Library.Utf8

variable {host : SkillHost} {w w' w'' : SkillWorld} {sources : List (String × SkillSource)}
  {existing : List SkillRecord} {fresh : Nat → Nat → SkillId}

theorem orRaise_wp {α : Type} (o : Option α) (e : SkillError) (w : SkillWorld) :
    wp (orRaise o e) (fun a t => t = w ∧ o = some a) (fun _ t => t = w) w := by
  cases o with
  | none => exact rfl
  | some a => exact ⟨rfl, rfl⟩

/-! ## What is found -/

/-- The diagnostics of a scan: those of the front matter, or that the files cannot be read, or cannot be
stored. -/
inductive SkillHost.Scanned (host : SkillHost) (source : SkillSource) (candidate : SkillCandidate) :
    List String → Prop where
  | read {files metadata diagnostics} :
      host.scan source candidate = .ok (files, metadata, diagnostics) →
      Scanned host source candidate diagnostics
  | unreadable {e} : host.scan source candidate = .error e → Scanned host source candidate [e.line]
  | unstored {files metadata diagnostics e s t} :
      host.scan source candidate = .ok (files, metadata, diagnostics) →
      host.put files (source.refused candidate) s = .error e t → Scanned host source candidate [e.line]

/-- The diagnostics of a skill by its source and path: a scan's, or that it is no longer there. -/
inductive SkillHost.Finds (host : SkillHost) (sources : List (String × SkillSource))
    (sourceId relativePath : String) : List String → Prop where
  | present {source candidate diagnostics} : sources.lookup sourceId = some source →
      candidate ∈ source.candidates → candidate.relativePath = relativePath →
      host.Scanned source candidate diagnostics → Finds host sources sourceId relativePath diagnostics
  | missing {source} : sources.lookup sourceId = some source →
      relativePath ∉ source.candidates.map SkillCandidate.relativePath →
      Finds host sources sourceId relativePath ["source entry removed or source disabled"]

/-- A record that a refresh writes. -/
inductive SkillHost.Written (host : SkillHost) (sources : List (String × SkillSource))
    (existing : List SkillRecord) (fresh : Nat → Nat → SkillId) : SkillRecord → Prop where
  | found {sourceId source candidate metadata diagnostics digest} (i j : Nat) :
      sources.lookup sourceId = some source → candidate ∈ source.candidates →
      host.Scanned source candidate diagnostics →
      Written host sources existing fresh (refreshedRecord sourceId source candidate
        (lastAt existing sourceId candidate.relativePath) (fresh i j) metadata diagnostics digest)
  | removed {r source} : sources.lookup r.sourceId = some source →
      r.relativePath ∉ source.candidates.map SkillCandidate.relativePath → r ∈ existing →
      Written host sources existing fresh r.removed

theorem SkillHost.Written.finds {r : SkillRecord} (written : host.Written sources existing fresh r) :
    host.Finds sources r.sourceId r.relativePath r.validationDiagnostics := by
  cases written with
  | found i j listed mem scanned => exact .present listed mem rfl scanned
  | removed listed absent mem => exact .missing listed absent

/-! ## How the state moves -/

/-- The record of the skill has been written. -/
def SkillHost.WrittenAt (host : SkillHost) (sources : List (String × SkillSource))
    (existing : List SkillRecord) (fresh : Nat → Nat → SkillId) (w : SkillWorld) (id : SkillId) : Prop :=
  ∃ r, w.skills.get id = some r ∧ r.skillId = id ∧ host.Written sources existing fresh r

/-- Activations stay, snapshots are only added, and records are written. -/
structure SkillHost.Rewrites (host : SkillHost) (sources : List (String × SkillSource))
    (existing : List SkillRecord) (fresh : Nat → Nat → SkillId) (w w' : SkillWorld) : Prop where
  activations : w'.activations = w.activations
  snapshots : host.Grows w.snapshots w'.snapshots
  records : ∀ id, w'.skills.get id = w.skills.get id ∨ host.WrittenAt sources existing fresh w' id

theorem SkillHost.Rewrites.refl (w : SkillWorld) : host.Rewrites sources existing fresh w w :=
  ⟨rfl, .refl _, fun _ => .inl rfl⟩

theorem SkillHost.Rewrites.trans (first : host.Rewrites sources existing fresh w w')
    (second : host.Rewrites sources existing fresh w' w'') :
    host.Rewrites sources existing fresh w w'' where
  activations := second.activations.trans first.activations
  snapshots := first.snapshots.trans second.snapshots
  records id := by
    rcases second.records id with same | written
    · rw [same, WrittenAt, same]
      exact first.records id
    · exact .inr written

theorem SkillHost.WrittenAt.mono {id : SkillId} (written : host.WrittenAt sources existing fresh w id)
    (rewrites : host.Rewrites sources existing fresh w w') :
    host.WrittenAt sources existing fresh w' id := by
  rcases rewrites.records id with same | again
  · rwa [WrittenAt, same]
  · exact again

theorem SkillHost.putSkill_wp {r : SkillRecord} (written : host.Written sources existing fresh r)
    (w : SkillWorld) : wp (putSkill r)
      (fun _ t => host.Rewrites sources existing fresh w t ∧
        host.WrittenAt sources existing fresh t r.skillId)
      (fun _ _ => False) w := by
  rw [putSkill, wp_modify]
  refine ⟨⟨rfl, .refl _, fun id => ?_⟩, r, (Records.get_put ..).trans (if_pos rfl), rfl, written⟩
  by_cases same : id = r.skillId
  · exact .inr ⟨r, (Records.get_put ..).trans (if_pos same), same.symm, written⟩
  · exact .inl ((Records.get_put ..).trans (if_neg same))

/-! ## Scanning -/

theorem reportedAs_wp (metadata : SkillMetadata) (e : SkillError) (w : SkillWorld) :
    wp (reportedAs metadata e) (fun out t => t = w ∧ out.2.1 = [e.line]) (fun _ t => t = w) w := by
  rw [reportedAs]
  split
  · exact ⟨rfl, rfl⟩
  · exact rfl

theorem SkillHost.takeSnapshot_wp (source : SkillSource) (candidate : SkillCandidate) (w : SkillWorld) :
    wp (host.takeSnapshot source candidate)
      (fun out t => host.Rewrites sources existing fresh w t ∧ host.Scanned source candidate out.2.1)
      (fun _ t => host.Rewrites sources existing fresh w t) w := by
  rw [takeSnapshot]
  split
  case h_1 e raised =>
    refine (reportedAs_wp [] e w).mono ?_ ?_
    · rintro out t ⟨rfl, line⟩
      exact ⟨.refl t, line ▸ .unreadable raised⟩
    · rintro _ t rfl
      exact .refl t
  case h_2 files metadata diagnostics scanned =>
    rw [wp_tryCatch, wp_bind, onSnapshots, wp_zoom]
    unfold wp
    cases put : host.put files (source.refused candidate) w.snapshots with
    | ok digest s =>
        have grows := host.put_wp files (source.refused candidate) w.snapshots
        unfold wp at grows
        rw [put] at grows
        exact ⟨⟨rfl, grows.1, fun _ => .inl rfl⟩, .read scanned⟩
    | error e s =>
        have same := host.put_wp files (source.refused candidate) w.snapshots
        unfold wp at same
        rw [put] at same
        refine (reportedAs_wp metadata e _).mono ?_ ?_
        · rintro out t ⟨rfl, line⟩
          exact ⟨⟨rfl, same ▸ .refl _, fun _ => .inl rfl⟩, line ▸ .unstored scanned put⟩
        · rintro _ t rfl
          exact ⟨rfl, same ▸ .refl _, fun _ => .inl rfl⟩

theorem SkillHost.refreshCandidate_wp {sourceId : String} {source : SkillSource}
    {candidate : SkillCandidate} (listed : sources.lookup sourceId = some source)
    (mem : candidate ∈ source.candidates) (i j : Nat) (w : SkillWorld) :
    wp (host.refreshCandidate existing sourceId source (fresh i j) candidate)
      (fun _ t => host.Rewrites sources existing fresh w t ∧
        ∀ r, lastAt existing sourceId candidate.relativePath = some r →
          host.WrittenAt sources existing fresh t r.skillId)
      (fun _ t => host.Rewrites sources existing fresh w t) w := by
  rw [refreshCandidate, wp_bind]
  refine (takeSnapshot_wp source candidate w).mono ?_ fun _ _ rewrites => rewrites
  rintro ⟨metadata, diagnostics, digest⟩ t ⟨stored, scanned⟩
  have written : host.Written sources existing fresh (refreshedRecord sourceId source candidate
      (lastAt existing sourceId candidate.relativePath) (fresh i j) metadata diagnostics digest) :=
    .found i j listed mem scanned
  refine wp_raise_bind (fun _ _ => stored) fun _ => ?_
  rw [wp_bind]
  refine (putSkill_wp written t).mono ?_ fun _ _ never => never.elim
  rintro _ u ⟨put, at'⟩
  have known : ∀ r, lastAt existing sourceId candidate.relativePath = some r →
      host.WrittenAt sources existing fresh u r.skillId := by
    intro r last
    rw [refreshedRecord, last] at at'
    exact at'
  split
  · rw [wp_bind, wp_modify]
    exact ⟨(stored.trans put).trans ⟨rfl, .refl _, fun _ => .inl rfl⟩, known⟩
  · exact ⟨stored.trans put, known⟩

theorem SkillHost.refreshCandidates_wp {sourceId : String} {source : SkillSource}
    (listed : sources.lookup sourceId = some source) (i : Nat) (candidates : List SkillCandidate)
    (within : ∀ c ∈ candidates, c ∈ source.candidates) (w : SkillWorld) :
    wp (host.refreshCandidates existing sourceId source (fresh i) candidates)
      (fun _ t => host.Rewrites sources existing fresh w t ∧
        ∀ c ∈ candidates, ∀ r, lastAt existing sourceId c.relativePath = some r →
          host.WrittenAt sources existing fresh t r.skillId)
      (fun _ t => host.Rewrites sources existing fresh w t) w := by
  induction candidates generalizing w with
  | nil => exact ⟨.refl w, fun _ mem => absurd mem List.not_mem_nil⟩
  | cons candidate candidates ih =>
      rw [refreshCandidates, wp_bind]
      refine (refreshCandidate_wp listed (within _ List.mem_cons_self) i _ w).mono ?_ fun _ _ h => h
      rintro record t ⟨first, known⟩
      rw [wp_bind]
      refine (ih (fun c mem => within c (List.mem_cons_of_mem _ mem)) t).mono ?_
        fun _ _ rest => first.trans rest
      rintro records u ⟨rest, others⟩
      refine ⟨first.trans rest, fun c mem r last => ?_⟩
      rcases List.mem_cons.mp mem with rfl | mem
      · exact (known r last).mono rest
      · exact others c mem r last

/-! ## Skills that are gone -/

theorem lastAt_cons (r : SkillRecord) (rest : List SkillRecord) (sourceId relativePath : String) :
    lastAt (r :: rest) sourceId relativePath =
      (lastAt rest sourceId relativePath).or
        (if r.sourceId = sourceId ∧ r.relativePath = relativePath then some r else none) := by
  rw [lastAt, lastAt, List.reverse_cons, List.find?_append]
  congr 1
  rw [List.find?_singleton]
  simp

theorem lastAt_mem {sourceId relativePath : String} {r : SkillRecord}
    (last : lastAt existing sourceId relativePath = some r) :
    r ∈ existing ∧ r.sourceId = sourceId ∧ r.relativePath = relativePath := by
  have here := List.find?_some last
  simp only [Bool.and_eq_true, decide_eq_true_eq] at here
  exact ⟨List.mem_reverse.mp (List.mem_of_find?_eq_some last), here⟩

theorem lastAt_of_mem {r : SkillRecord} (mem : r ∈ existing) :
    ∃ last, lastAt existing r.sourceId r.relativePath = some last := by
  refine Option.isSome_iff_exists.mp (List.find?_isSome.mpr ⟨r, List.mem_reverse.mpr mem, ?_⟩)
  simp

theorem mem_of_mem_lastRows {r : SkillRecord} (mem : r ∈ lastRows existing) : r ∈ existing := by
  induction existing with
  | nil => exact mem
  | cons row rest ih =>
      rw [lastRows] at mem
      split at mem
      · exact List.mem_cons_of_mem _ (ih mem)
      · rcases List.mem_cons.mp mem with rfl | mem
        · exact List.mem_cons_self
        · exact List.mem_cons_of_mem _ (ih mem)

theorem mem_lastRows {r : SkillRecord}
    (last : lastAt existing r.sourceId r.relativePath = some r) : r ∈ lastRows existing := by
  induction existing with
  | nil => cases last
  | cons row rest ih =>
      rw [lastAt_cons] at last
      rw [lastRows]
      cases later : lastAt rest r.sourceId r.relativePath with
      | some found =>
          rw [later] at last
          cases last
          split
          · exact ih later
          · exact List.mem_cons_of_mem _ (ih later)
      | none =>
          rw [later, Option.none_or] at last
          split at last
          case isTrue here =>
            cases last
            rw [later]
            exact List.mem_cons_self
          case isFalse => cases last

theorem SkillHost.withdraw_wp {sourceId : String} {source : SkillSource}
    (listed : sources.lookup sourceId = some source) (rows : List SkillRecord)
    (within : ∀ r ∈ rows, r ∈ existing) (w : SkillWorld) :
    wp (withdraw sourceId (source.candidates.map SkillCandidate.relativePath) rows)
      (fun _ t => host.Rewrites sources existing fresh w t ∧
        ∀ r ∈ rows, r.sourceId = sourceId →
          r.relativePath ∉ source.candidates.map SkillCandidate.relativePath →
          host.WrittenAt sources existing fresh t r.skillId)
      (fun _ t => host.Rewrites sources existing fresh w t) w := by
  induction rows generalizing w with
  | nil => exact ⟨.refl w, fun _ mem => absurd mem List.not_mem_nil⟩
  | cons row rest ih =>
      have later := fun t => ih (fun r mem => within r (List.mem_cons_of_mem _ mem)) t
      rw [withdraw]
      split
      case isTrue gone =>
        have written : host.Written sources existing fresh row.removed :=
          .removed (gone.1 ▸ listed) gone.2 (within row List.mem_cons_self)
        rw [wp_bind]
        refine (putSkill_wp written w).mono ?_ fun _ _ never => never.elim
        rintro _ t ⟨put, at'⟩
        refine (later t).mono ?_ fun _ _ rest => put.trans rest
        rintro _ u ⟨rest, others⟩
        refine ⟨put.trans rest, fun r mem source absent => ?_⟩
        rcases List.mem_cons.mp mem with rfl | mem
        · exact at'.mono rest
        · exact others r mem source absent
      case isFalse stays =>
        refine (later w).mono ?_ fun _ _ rest => rest
        rintro _ u ⟨rest, others⟩
        refine ⟨rest, fun r mem source absent => ?_⟩
        rcases List.mem_cons.mp mem with rfl | mem
        · exact absurd ⟨source, absent⟩ stays
        · exact others r mem source absent

/-! ## The refresh -/

theorem SkillHost.refreshSource_wp (i : Nat) (sourceId : String) (w : SkillWorld) :
    wp (host.refreshSource sources existing (fresh i) sourceId)
      (fun _ t => host.Rewrites sources existing fresh w t ∧
        ∀ r, r.sourceId = sourceId → lastAt existing r.sourceId r.relativePath = some r →
          host.WrittenAt sources existing fresh t r.skillId)
      (fun _ t => host.Rewrites sources existing fresh w t) w := by
  rw [refreshSource, wp_bind]
  refine (orRaise_wp _ _ w).mono ?_ ?_
  · rintro source t ⟨rfl, listed⟩
    rw [wp_bind]
    refine (refreshCandidates_wp listed i _ (fun _ mem => mem) t).mono ?_ fun _ _ rewrites => rewrites
    rintro records u ⟨scans, known⟩
    refine wp_raise_bind (fun _ _ => scans) fun _ => ?_
    rw [wp_bind]
    refine (withdraw_wp listed _ (fun r => mem_of_mem_lastRows) u).mono ?_
      fun _ _ rewrites => scans.trans rewrites
    rintro _ v ⟨withdraws, gone⟩
    refine ⟨scans.trans withdraws, fun r same last => ?_⟩
    by_cases found : r.relativePath ∈ source.candidates.map SkillCandidate.relativePath
    · obtain ⟨candidate, mem, path⟩ := List.mem_map.mp found
      refine (known candidate mem r ?_).mono withdraws
      rw [path, ← same, last]
    · exact gone r (mem_lastRows last) same found
  · rintro _ t rfl
    exact .refl t

theorem SkillHost.refreshSources_wp (sourceIds : List String) (w : SkillWorld) :
    wp (host.refreshSources sources existing fresh sourceIds)
      (fun _ t => host.Rewrites sources existing fresh w t ∧
        ∀ r, r.sourceId ∈ sourceIds → lastAt existing r.sourceId r.relativePath = some r →
          host.WrittenAt sources existing fresh t r.skillId)
      (fun _ t => host.Rewrites sources existing fresh w t) w := by
  induction sourceIds generalizing w with
  | nil => exact ⟨.refl w, fun _ mem => absurd mem List.not_mem_nil⟩
  | cons sourceId sourceIds ih =>
      rw [refreshSources, wp_bind]
      refine (refreshSource_wp _ sourceId w).mono ?_ fun _ _ rewrites => rewrites
      rintro records t ⟨first, here⟩
      rw [wp_bind]
      refine (ih t).mono ?_ fun _ _ rest => first.trans rest
      rintro others u ⟨rest, later⟩
      refine ⟨first.trans rest, fun r mem last => ?_⟩
      rcases List.mem_cons.mp mem with same | mem
      · exact (here r same last).mono rest
      · exact later r mem last

/-- The sources that a refresh is for. -/
def chosenSources (sources : List (String × SkillSource)) (sourceIds : Option (List String)) :
    List String :=
  if sourceIds.getD [] = [] then sources.map Prod.fst else sourceIds.getD []

theorem SkillHost.refresh_wp (host : SkillHost) (sources : List (String × SkillSource)) (sourceIds : Option (List String))
    (fresh : Nat → Nat → SkillId) (w : SkillWorld) :
    wp (host.refresh sources sourceIds fresh)
      (fun _ t => host.Rewrites sources w.listSkills fresh w t ∧
        ∀ r, r.sourceId ∈ chosenSources sources sourceIds →
          lastAt w.listSkills r.sourceId r.relativePath = some r →
          host.WrittenAt sources w.listSkills fresh t r.skillId)
      (fun _ t => host.Rewrites sources w.listSkills fresh w t) w := by
  rw [refresh, wp_bind, wp_get]
  dsimp only
  rw [wp_bind]
  exact refreshSources_wp _ w

end MiHarness
