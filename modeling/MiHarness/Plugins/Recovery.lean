import MiHarness.Plugins.Resolution

/-!
# Recovery

After a process has ended, `recover` resolves the requirements of what was ready or draining and loads it
again.  It raises when a requirement is not met by a ready version or when the resolution has a cycle,
and the calls before can bring both about: `drain` does not look at the versions that require the
drained one, and neither `load` nor a disposal at what the other versions are resolved against
afterwards.  `Orderly` is the condition under which a call does neither.
-/

namespace MiHarness

open Library Relation

variable {V : Type} [LinearOrder V] {E : Type} {h : PluginHost V} {port : ExtensionPort E}
  {w w' : PluginWorld E} {id id' : PluginId} {version version' : VersionText} {k : PluginKey}
  {r : PluginRecord} {m : PluginManifest} {code : PluginCode}

/-- A key has one identifier and one version. -/
theorem pluginKey_inj (plain : '@' ∉ id.toList ∧ '@' ∉ version.toList)
    (same : pluginKey id' version' = pluginKey id version) : id' = id ∧ version' = version := by
  have split : ∀ (a b a' b' : List Char), '@' ∉ a → '@' ∉ b → a' ++ '@' :: b' = a ++ '@' :: b →
      a' = a ∧ b' = b := by
    intro a
    induction a with
    | nil =>
        intro b a' b' _ hb same
        cases a' with
        | nil => exact ⟨rfl, (List.cons.inj same).2⟩
        | cons c a' =>
            obtain ⟨-, rest⟩ := List.cons.inj same
            exact absurd (rest ▸ List.mem_append_right _ (List.mem_cons_self ..)) hb
    | cons c a ih =>
        intro b a' b' ha hb same
        rw [List.mem_cons, not_or] at ha
        cases a' with
        | nil =>
            obtain ⟨first, -⟩ := List.cons.inj same
            exact absurd first ha.1
        | cons c' a' =>
            obtain ⟨rfl, rest⟩ := List.cons.inj same
            obtain ⟨rfl, rfl⟩ := ih b a' b' ha.2 hb rest
            exact ⟨rfl, rfl⟩
  have texts := congrArg String.toList same
  simp only [pluginKey, String.toList_append, List.append_assoc] at texts
  obtain ⟨ids, versions⟩ := split _ _ _ _ plain.1 plain.2 texts
  exact ⟨String.toList_injective ids, String.toList_injective versions⟩

namespace PluginRegistry

/-- The version has a record of a status that is recovered. -/
def Live (records : Table PluginKey PluginRecord) (m : PluginManifest) : Prop :=
  ∃ k r, records.get? k = some r ∧ r.status.live = true ∧ r.manifest = m

/-- The version is ready. -/
def Ready (records : Table PluginKey PluginRecord) (m : PluginManifest) : Prop :=
  ∃ k r, records.get? k = some r ∧ r.status = .ready ∧ r.manifest = m

/-- The checks of `load` that do not depend on the records. -/
def Admitted (h : PluginHost V) (m : PluginManifest) : Prop :=
  (∃ range, h.specifier m.harnessApi = some range ∧ range h.harnessApi = true) ∧
    ∀ entrypoint ∈ m.entrypoint, h.factories entrypoint = true

/-- No reference holds the version of a key, apart from those of a run. -/
def HeldOnlyBy (w : PluginWorld E) (k : PluginKey) (run : Option RunText) : Prop :=
  ∀ t ref, w.refs.get t = some ref → pluginKey ref.pluginId ref.version = k → some ref.runId = run

/-- The versions that a call disposes of, or fails to. -/
def Retires (w : PluginWorld E) : PluginAction → PluginKey → Prop
  | .leave _ id version, k => k = pluginKey id version ∧ w.inflight k = 1 ∧ HeldOnlyBy w k none ∧
      ∃ r, w.records.get? k = some r ∧ r.status = .draining
  | .drain _ id version, k => k = pluginKey id version ∧ w.inflight k = 0 ∧ HeldOnlyBy w k none
  | .releaseRun _ run, k => w.inflight k = 0 ∧ HeldOnlyBy w k (some run) ∧
      (∃ t ref, w.refs.get t = some ref ∧ pluginKey ref.pluginId ref.version = k) ∧
      ∃ r, w.records.get? k = some r ∧ r.status = .draining
  | _, _ => False

/-- Every requirement of a version that is recovered is met by a ready version other than this one. -/
def Dispensable (h : PluginHost V) (w : PluginWorld E) (k : PluginKey) : Prop :=
  ∀ m, Live w.records m → ∀ r ∈ m.requires, ∀ requirement, h.specifier r.2 = some requirement →
    ∀ a, Ready w.records a → a.key = k → admits h requirement r.1 a = true →
      ∃ b, Ready w.records b ∧ b.key ≠ k ∧ admits h requirement r.1 b = true

/-- A version that was resolved against one that goes is not, without it, resolved against itself
through others. -/
def Untangled (h : PluginHost V) (w : PluginWorld E) (goes : PluginKey → Prop) : Prop :=
  ∀ x d, goes d.key → Needs h (Live w.records) x d →
    ¬TransGen (Needs h fun m => Live w.records m ∧ ¬goes m.key) x x

/-- The condition on a call: a version that is loaded is not resolved against itself through others, one
that is drained is not the only ready one that another requires, and the disposals leave no version
resolved against itself. -/
def Orderly (h : PluginHost V) (w : PluginWorld E) (a : PluginAction) : Prop :=
  match a with
  | .load _ m _ => (∀ r, w.records.get? m.key = some r → r.status.live = false) →
      ¬TransGen (Needs h fun a => a = m ∨ Live w.records a) m m
  | .drain _ id version => Dispensable h w (pluginKey id version) ∧ Untangled h w (Retires w a)
  | .leave .. | .releaseRun .. => Untangled h w (Retires w a)
  | _ => True

/-! ## What holds of the registry -/

structure Sound (h : PluginHost V) (w : PluginWorld E) : Prop where
  keyed : Keyed w.records
  admitted : ∀ k r, w.records.get? k = some r → Admitted h r.manifest
  hashed : ∀ k r, w.records.get? k = some r → r.manifestHash = r.manifest
  met : ∀ m, Live w.records m → Met h (Ready w.records) m
  acyclic : ∀ a, ¬TransGen (Needs h (Live w.records)) a a
  refs : ∀ t ref, w.refs.get t = some ref → t = refKey ref.pluginId ref.version ref.runId ∧
    ∃ r, w.records.get? (pluginKey ref.pluginId ref.version) = some r ∧ r.status.live = true
  idle : ∀ k r, w.records.get? k = some r → r.status.live = false → w.inflight k = 0

/-- The two lists of the registry. -/
theorem mem_live {records : Table PluginKey PluginRecord} : m ∈ live records ↔ Live records m :=
  mem_manifests

theorem mem_installed {records : Table PluginKey PluginRecord} :
    m ∈ installed records ↔ Ready records m := by
  rw [installed, mem_manifests]
  simp only [decide_eq_true_eq]
  rfl

theorem Ready.live {records : Table PluginKey PluginRecord} (ready : Ready records m) :
    Live records m := by
  obtain ⟨k, r, row, status, same⟩ := ready
  exact ⟨k, r, row, by rw [status]; rfl, same⟩

theorem Sound.finite (sound : Sound h w) : ∃ l : List PluginManifest,
    l.Pairwise (fun a b => a.key < b.key) ∧ ∀ a, a ∈ l ↔ Live w.records a :=
  ⟨live w.records, pairwise_manifests sound.keyed _, fun _ => mem_live⟩

/-- A version that is found by its key. -/
theorem Sound.row (sound : Sound h w) (found : Live w.records m) :
    ∃ r, w.records.get? m.key = some r ∧ r.status.live = true ∧ r.manifest = m := by
  obtain ⟨k, r, row, status, rfl⟩ := found
  exact ⟨r, (sound.keyed k r row).symm ▸ row, status, rfl⟩

theorem Sound.readyRow (sound : Sound h w) (found : Ready w.records m) :
    ∃ r, w.records.get? m.key = some r ∧ r.status = .ready ∧ r.manifest = m := by
  obtain ⟨k, r, row, status, rfl⟩ := found
  exact ⟨r, (sound.keyed k r row).symm ▸ row, status, rfl⟩

/-- What is recovered and what is ready depends on the manifests and the statuses. -/
theorem live_congr (records' records : Table PluginKey PluginRecord) (same : ∀ k,
      (records'.get? k).map (fun r => (r.manifest, r.status)) =
        (records.get? k).map fun r => (r.manifest, r.status)) :
    Live records' = Live records ∧ Ready records' = Ready records := by
  have both : ∀ {t t' : Table PluginKey PluginRecord} (p : PluginStatus → Prop) (a : PluginManifest),
      (∀ k, (t'.get? k).map (fun r => (r.manifest, r.status)) =
        (t.get? k).map fun r => (r.manifest, r.status)) →
      (∃ k r, t'.get? k = some r ∧ p r.status ∧ r.manifest = a) →
        ∃ k r, t.get? k = some r ∧ p r.status ∧ r.manifest = a := by
    rintro t t' p a same ⟨k, r, row, status, rfl⟩
    have here := same k
    rw [row, Option.map_some] at here
    obtain ⟨r', row', agree⟩ := Option.map_eq_some_iff.mp here.symm
    simp only [Prod.mk.injEq] at agree
    exact ⟨k, r', row', agree.2 ▸ status, agree.1⟩
  exact ⟨funext fun a => propext ⟨both (fun s => s.live = true) a same,
      both (fun s => s.live = true) a fun k => (same k).symm⟩,
    funext fun a => propext ⟨both (· = .ready) a same, both (· = .ready) a fun k => (same k).symm⟩⟩

/-! ## Loading -/

theorem vet_eq_ok {u : Unit} (success : vet h w m = .ok u) :
    Admitted h m ∧ Met h (Ready w.records) m := by
  simp only [vet, bind_eq_ok, orThrow_eq_ok, require_eq_ok, exists_const] at success
  obtain ⟨range, parsed, fits, factory, order, resolved, -⟩ := success
  obtain ⟨-, met⟩ := resolveDependencies_single.mp resolved
  refine ⟨⟨⟨range, parsed, fits⟩, factory⟩, fun r hr => ?_⟩
  obtain ⟨apart, requirement, parsed', a, ha, admitted⟩ := met r hr
  exact ⟨apart, requirement, parsed', a, mem_installed.mp ha, admitted⟩

theorem vet_ok (admitted : Admitted h m) (met : Met h (Ready w.records) m) :
    vet h w m = .ok () := by
  obtain ⟨⟨range, parsed, fits⟩, factory⟩ := admitted
  have resolved : resolveDependencies h (installed w.records) [m] = .ok [m] := by
    refine resolveDependencies_single.mpr ⟨rfl, fun r hr => ?_⟩
    obtain ⟨apart, requirement, parsed', a, ha, admitted⟩ := met r hr
    exact ⟨apart, requirement, parsed', a, mem_installed.mpr ha, admitted⟩
  rw [vet, parsed]
  simp only [orThrow, ok_bind]
  rw [require_pos _ fits, ok_bind, require_pos _ factory, ok_bind, resolved]
  rfl

/-- What a load does to the records: nothing, or it puts the record of the version, which has none of
another manifest. -/
theorem load_changes (rehydrate : Bool) (hload : (load h port w code m rehydrate).2 = w') :
    w'.refs = w.refs ∧ w'.inflight = w.inflight ∧ (w'.records = w.records ∨
      (Admitted h m ∧ Met h (Ready w.records) m ∧
        (∀ r, w.records.get? m.key = some r → r.manifestHash = m) ∧
        (rehydrate = true → ∃ r, w.records.get? m.key = some r ∧ r.status.live = true) ∧
        w'.records = w.records.put m.key (loadedRecord (w.records.get? m.key) m))) := by
  unfold load at hload
  split at hload
  · subst hload
    exact ⟨rfl, rfl, .inl rfl⟩
  · rename_i u success
    obtain ⟨admitted, met⟩ := vet_eq_ok success
    dsimp only at hload
    split at hload
    · subst hload
      exact ⟨rfl, rfl, .inl rfl⟩
    · rename_i goes
      split at hload
      · subst hload
        exact ⟨rfl, rfl, .inl rfl⟩
      · rename_i same
        split at hload
        · subst hload
          exact ⟨rfl, rfl, .inl rfl⟩
        · split at hload
          · subst hload
            exact ⟨rfl, rfl, .inl rfl⟩
          · subst hload
            refine ⟨rfl, rfl, .inr ⟨admitted, met, fun r row => ?_, fun again => ?_, rfl⟩⟩
            · rw [row] at same
              simpa using same
            · have found : (w.records.get? m.key).any (fun r => r.status.live) = true := by
                simpa [again] using goes
              cases row : w.records.get? m.key with
              | none => rw [row] at found; cases found
              | some r => exact ⟨r, rfl, by rw [row] at found; simpa using found⟩

/-- The record of a version that is put over a live one says what that said. -/
theorem loadedRecord_live {records : Table PluginKey PluginRecord} {r : PluginRecord}
    (row : records.get? m.key = some r) (status : r.status.live = true) (same : r.manifest = m)
    (k : PluginKey) :
    ((records.put m.key (loadedRecord (some r) m)).get? k).map (fun r => (r.manifest, r.status)) =
      (records.get? k).map fun r => (r.manifest, r.status) := by
  rw [Table.get?_put]
  split
  · rename_i here
    subst here
    rw [row, Option.map_some, Option.map_some, ← same]
    cases r with
    | mk manifest manifestHash status' revision =>
        cases status' <;> first | rfl | cases status
  · rfl

theorem Sound.of_same (sound : Sound h w) (records : w'.records = w.records)
    (refs : w'.refs = w.refs) (inflight : ∀ k, w'.inflight k ≤ w.inflight k) : Sound h w' where
  keyed := records ▸ sound.keyed
  admitted := records ▸ sound.admitted
  hashed := records ▸ sound.hashed
  met := records ▸ sound.met
  acyclic := records ▸ sound.acyclic
  refs := by rw [refs, records]; exact sound.refs
  idle k r row status := by
    have before := sound.idle k r (records ▸ row) status
    have bound := inflight k
    omega

/-- The record of a loaded version is put, and it joins the pool or was in it. -/
theorem Sound.put (sound : Sound h w) (admitted : Admitted h m) (met : Met h (Ready w.records) m)
    (hashed : ∀ r, w.records.get? m.key = some r → r.manifestHash = m)
    (orderly : (∀ r, w.records.get? m.key = some r → r.status.live = false) →
      ¬TransGen (Needs h fun a => a = m ∨ Live w.records a) m m)
    (records : w'.records = w.records.put m.key (loadedRecord (w.records.get? m.key) m))
    (refs : w'.refs = w.refs) (inflight : w'.inflight = w.inflight) : Sound h w' := by
  have read : ∀ k, w'.records.get? k =
      if k = m.key then some (loadedRecord (w.records.get? m.key) m) else w.records.get? k :=
    fun k => by rw [records, Table.get?_put]
  have newStatus : (loadedRecord (w.records.get? m.key) m).status.live = true := by
    unfold loadedRecord
    dsimp only
    split <;> rfl
  have keyed : Keyed w'.records := by
    intro k r row
    rw [read] at row
    split at row
    · rename_i here
      cases row
      exact here.symm
    · exact sound.keyed k r row
  have admitted' : ∀ k r, w'.records.get? k = some r → Admitted h r.manifest := by
    intro k r row
    rw [read] at row
    split at row
    · cases row
      exact admitted
    · exact sound.admitted k r row
  have hashed' : ∀ k r, w'.records.get? k = some r → r.manifestHash = r.manifest := by
    intro k r row
    rw [read] at row
    split at row
    · cases row
      rfl
    · exact sound.hashed k r row
  have refs' : ∀ t ref, w'.refs.get t = some ref →
      t = refKey ref.pluginId ref.version ref.runId ∧
      ∃ r, w'.records.get? (pluginKey ref.pluginId ref.version) = some r ∧ r.status.live = true := by
    intro t ref held
    obtain ⟨named, r, row, status⟩ := sound.refs t ref (refs ▸ held)
    refine ⟨named, ?_⟩
    rw [read]
    split
    · exact ⟨_, rfl, newStatus⟩
    · exact ⟨r, row, status⟩
  have idle : ∀ k r, w'.records.get? k = some r → r.status.live = false → w'.inflight k = 0 := by
    intro k r row status
    rw [read] at row
    split at row
    · cases row
      cases newStatus.symm.trans status
    · rw [inflight]
      exact sound.idle k r row status
  by_cases known : ∃ r, w.records.get? m.key = some r ∧ r.status.live = true
  · obtain ⟨r, row, status⟩ := known
    have same : r.manifest = m := (sound.hashed m.key r row).symm.trans (hashed r row)
    rw [row] at records
    obtain ⟨lives, readies⟩ := live_congr w'.records w.records
      fun k => records ▸ loadedRecord_live row status same k
    exact ⟨keyed, admitted', hashed', by rw [lives, readies]; exact sound.met,
      by rw [lives]; exact sound.acyclic, refs', idle⟩
  · have gone : ∀ r, w.records.get? m.key = some r → r.status.live = false := fun r row =>
      Bool.eq_false_iff.mpr fun status => known ⟨r, row, status⟩
    have ready : (loadedRecord (w.records.get? m.key) m).status = .ready := by
      unfold loadedRecord
      dsimp only
      rw [if_neg]
      intro draining
      obtain ⟨r, row, status⟩ := Option.map_eq_some_iff.mp draining
      have dead := gone r row
      rw [status] at dead
      cases dead
    -- the version joins what is recovered and what is ready
    have joins : ∀ (p : PluginStatus → Prop), p .ready → (∀ s, p s → s.live = true) → ∀ a,
        (∃ k r, w'.records.get? k = some r ∧ p r.status ∧ r.manifest = a) ↔
          a = m ∨ ∃ k r, w.records.get? k = some r ∧ p r.status ∧ r.manifest = a := by
      intro p start lives a
      constructor
      · rintro ⟨k, r, row, status, rfl⟩
        rw [read] at row
        split at row
        · cases row
          exact .inl rfl
        · exact .inr ⟨k, r, row, status, rfl⟩
      · rintro (rfl | ⟨k, r, row, status, rfl⟩)
        · exact ⟨a.key, _, by rw [read, if_pos rfl], ready ▸ start, rfl⟩
        · refine ⟨k, r, ?_, status, rfl⟩
          rw [read, if_neg, row]
          rintro rfl
          cases (lives _ status).symm.trans (gone r row)
    have joinsLive : ∀ a, Live w'.records a ↔ a = m ∨ Live w.records a :=
      joins (fun s => s.live = true) rfl fun _ live => live
    have joinsReady : ∀ a, Ready w'.records a ↔ a = m ∨ Ready w.records a :=
      joins (· = .ready) rfl fun _ ready => ready ▸ rfl
    have more : ∀ a, Met h (Ready w.records) a → Met h (Ready w'.records) a := by
      intro a met r hr
      obtain ⟨apart, requirement, parsed, b, ready, admitted⟩ := met r hr
      exact ⟨apart, requirement, parsed, b, (joinsReady b).mpr (.inr ready), admitted⟩
    refine ⟨keyed, admitted', hashed', fun a ha => ?_, acyclic_join sound.acyclic joinsLive ?_, refs', idle⟩
    · rcases (joinsLive a).mp ha with rfl | ha
      · exact more a met
      · exact more a (sound.met a ha)
    · rw [show Live w'.records = fun a => a = m ∨ Live w.records a from
        funext fun a => propext (joinsLive a)]
      exact orderly gone

theorem Sound.load (sound : Sound h w) (rehydrate : Bool)
    (orderly : Orderly h w (.load code m rehydrate)) :
    Sound h (load h port w code m rehydrate).2 := by
  obtain ⟨refs, inflight, records | ⟨admitted, met, hashed, -, records⟩⟩ :=
    load_changes rehydrate (rfl : (PluginRegistry.load h port w code m rehydrate).2 = _)
  · exact sound.of_same records refs fun k => (congrFun inflight k).le
  · exact sound.put admitted met hashed orderly records refs inflight

/-- A version that is loaded again was in the pool. -/
theorem Sound.reload (sound : Sound h w) (port : ExtensionPort E) (code : PluginCode)
    (m : PluginManifest) :
    Sound h (PluginRegistry.load h port w code m true).2 ∧
      Live (PluginRegistry.load h port w code m true).2.records = Live w.records ∧
      Ready (PluginRegistry.load h port w code m true).2.records = Ready w.records := by
  obtain ⟨refs, inflight, records | ⟨admitted, met, hashed, again, records⟩⟩ :=
    load_changes true (rfl : (PluginRegistry.load h port w code m true).2 = _)
  · exact ⟨sound.of_same records refs fun k => (congrFun inflight k).le, by rw [records],
      by rw [records]⟩
  · obtain ⟨r, row, status⟩ := again rfl
    have same : r.manifest = m := (sound.hashed m.key r row).symm.trans (hashed r row)
    refine ⟨sound.put admitted met hashed (fun gone => ?_) records refs inflight, ?_⟩
    · cases status.symm.trans (gone r row)
    · rw [row] at records
      exact live_congr _ _ fun k => records ▸ loadedRecord_live row status same k

/-! ## References and calls -/

/-- A reference of a live version is added. -/
theorem Sound.hold {refs : Versioned String PluginRef} (sound : Sound h w) (ref : PluginRef)
    (row : w.records.get? (pluginKey ref.pluginId ref.version) = some r)
    (status : r.status.live = true)
    (hput : w.refs.put (refKey ref.pluginId ref.version ref.runId) ref = .ok refs) :
    Sound h { w with refs } where
  keyed := sound.keyed
  admitted := sound.admitted
  hashed := sound.hashed
  met := sound.met
  acyclic := sound.acyclic
  refs t ref' held := by
    rw [Versioned.put_get hput] at held
    split at held
    · rename_i here
      cases held
      exact ⟨here, r, row, status⟩
    · exact sound.refs t ref' held
  idle := sound.idle

theorem Sound.bindRun {run : RunText} {ref : PluginRef} (sound : Sound h w)
    (success : bindRun w id version run = .ok (ref, w')) : Sound h w' := by
  simp only [PluginRegistry.bindRun, record, bind_eq_ok, orThrow_eq_ok] at success
  obtain ⟨r, row, success⟩ := success
  split at success
  · cases success
    exact sound
  · simp only [bind_eq_ok, require_eq_ok, exists_const, Except.ok.injEq, Prod.mk.injEq] at success
    obtain ⟨ready, refs, hput, -, rfl⟩ := success
    exact sound.hold ⟨id, version, run, r.manifestHash⟩ row (by rw [ready]; rfl) hput

theorem Sound.restoreRun {run : RunText} {manifestHash : PluginManifest} (sound : Sound h w)
    (success : restoreRun w id version run manifestHash = .ok w') : Sound h w' := by
  simp only [PluginRegistry.restoreRun] at success
  split at success
  · cases success
    exact sound
  · simp only [record, bind_eq_ok, orThrow_eq_ok, require_eq_ok, exists_const,
      Except.ok.injEq] at success
    obtain ⟨r, row, ⟨-, status⟩, refs, hput, rfl⟩ := success
    exact sound.hold ⟨id, version, run, manifestHash⟩ row status hput

theorem Sound.enter {run : RunText} (sound : Sound h w)
    (success : enter w id version run = .ok w') : Sound h w' := by
  simp only [PluginRegistry.enter, record, bind_eq_ok, orThrow_eq_ok, require_eq_ok, exists_const,
    Except.ok.injEq] at success
  obtain ⟨-, -, r, row, status, rfl⟩ := success
  refine ⟨sound.keyed, sound.admitted, sound.hashed, sound.met, sound.acyclic, sound.refs,
    fun k r' row' dead => ?_⟩
  show Function.update w.inflight _ _ k = 0
  rw [Function.update_of_ne]
  · exact sound.idle k r' row' dead
  · rintro rfl
    cases row.symm.trans row'
    cases status.symm.trans dead

/-! ## Disposal -/

theorem referenced_eq_false {refs : Versioned String PluginRef} :
    referenced refs id version = false ↔
      ∀ t ref, refs.get t = some ref → ref.pluginId = id → ref.version ≠ version := by
  rw [referenced, Table.any_eq_false]
  constructor
  · intro none t ref held named
    obtain ⟨row, found, rfl⟩ := Records.get_eq_some.mp held
    simpa [named] using none t row found
  · intro none t row found
    by_cases named : row.payload.pluginId = id
    · have other := none t row.payload (Records.get_eq_some.mpr ⟨row, found, rfl⟩) named
      simp [other]
    · simp [named]

/-- The references of a version that has a record are those of its key. -/
theorem heldOnly_none (keyed : Keyed w.records)
    (row : w.records.get? (pluginKey id version) = some r) :
    referenced w.refs id version = false ↔ HeldOnlyBy w (pluginKey id version) none := by
  have own := keyed _ r row
  rw [referenced_eq_false]
  constructor
  · intro none t ref held same
    obtain ⟨rfl, rfl⟩ := pluginKey_inj r.manifest.plain own.symm
    obtain ⟨named, versioned⟩ := pluginKey_inj r.manifest.plain (same.trans own.symm)
    exact absurd versioned (none t ref held named)
  · intro only t ref held named versioned
    have holder := only t ref held (by rw [named, versioned])
    cases holder

theorem disposeIfUnused_changes {r' : PluginRecord}
    (success : disposeIfUnused port w code id version = .ok (r', w')) :
    w'.refs = w.refs ∧ w'.inflight = w.inflight ∧
      ∃ r, w.records.get? (pluginKey id version) = some r ∧
        ((unused w r id version = false ∧ w'.records = w.records) ∨
          (unused w r id version = true ∧ ∃ status : PluginStatus, status.live = false ∧
            w'.records = w.records.put (pluginKey id version) { r with status })) := by
  simp only [disposeIfUnused, record, bind_eq_ok, orThrow_eq_ok] at success
  obtain ⟨r, row, success⟩ := success
  split at success
  · rename_i free
    split at success
    · cases success
      exact ⟨rfl, rfl, r, row, .inr ⟨free, .disposed, rfl, rfl⟩⟩
    · cases success
      exact ⟨rfl, rfl, r, row, .inr ⟨free, .disposeFailed, rfl, rfl⟩⟩
  · rename_i busy
    simp only [Except.ok.injEq, Prod.mk.injEq] at success
    obtain ⟨-, rfl⟩ := success
    exact ⟨rfl, rfl, r, row, .inl ⟨Bool.eq_false_iff.mpr busy, rfl⟩⟩

theorem unused_iff (keyed : Keyed w.records)
    (row : w.records.get? (pluginKey id version) = some r) : unused w r id version = true ↔
      r.status = .draining ∧ HeldOnlyBy w (pluginKey id version) none ∧
        w.inflight (pluginKey id version) = 0 := by
  rw [unused, Bool.and_eq_true, Bool.and_eq_true, decide_eq_true_eq, decide_eq_true_eq,
    Bool.not_eq_true', heldOnly_none keyed row, and_assoc]

/-- Draining versions that nothing uses have left the pool, and no other record has changed. -/
structure Retired (w w' : PluginWorld E) (goes : PluginKey → Prop) : Prop where
  kept : ∀ k, ¬goes k → w'.records.get? k = w.records.get? k
  gone : ∀ k, goes k → ∃ r status, w.records.get? k = some r ∧ r.status = .draining ∧
    PluginStatus.live status = false ∧ w'.records.get? k = some { r with status }
  refs : ∀ t ref, w'.refs.get t = some ref → w.refs.get t = some ref ∧
    ¬goes (pluginKey ref.pluginId ref.version)
  inflight : ∀ k, w'.inflight k ≤ w.inflight k
  idle : ∀ k, goes k → w'.inflight k = 0

theorem Sound.retired (sound : Sound h w) (goes : PluginKey → Prop) (retired : Retired w w' goes)
    (untangled : Untangled h w goes) : Sound h w' := by
  -- a record has the manifest it had
  have origin : ∀ k r', w'.records.get? k = some r' → ∃ r, w.records.get? k = some r ∧
      r'.manifest = r.manifest ∧ r'.manifestHash = r.manifestHash ∧
      ((¬goes k ∧ r' = r) ∨ (goes k ∧ r'.status.live = false ∧ r.status = .draining)) := by
    intro k r' row'
    by_cases leaves : goes k
    · obtain ⟨r, status, row, draining, dead, put⟩ := retired.gone k leaves
      cases row'.symm.trans put
      exact ⟨r, row, rfl, rfl, .inr ⟨leaves, dead, draining⟩⟩
    · exact ⟨r', retired.kept k leaves ▸ row', rfl, rfl, .inl ⟨leaves, rfl⟩⟩
  have stays : ∀ (p : PluginStatus → Prop), (∀ s, p s → s.live = true) → ∀ a,
      (∃ k r, w'.records.get? k = some r ∧ p r.status ∧ r.manifest = a) ↔
        (∃ k r, w.records.get? k = some r ∧ p r.status ∧ r.manifest = a) ∧ ¬goes a.key := by
    intro p lives a
    constructor
    · rintro ⟨k, r', row', status, rfl⟩
      obtain ⟨r, row, same, -, ⟨stay, rfl⟩ | ⟨-, dead, -⟩⟩ := origin k r' row'
      · exact ⟨⟨k, _, row, status, rfl⟩, by rw [sound.keyed k _ row]; exact stay⟩
      · cases dead.symm.trans (lives _ status)
    · rintro ⟨⟨k, r, row, status, rfl⟩, stay⟩
      rw [sound.keyed k r row] at stay
      exact ⟨k, r, (retired.kept k stay).trans row, status, rfl⟩
  have staysLive : ∀ a, Live w'.records a ↔ Live w.records a ∧ ¬goes a.key :=
    stays (fun s => s.live = true) fun _ live => live
  have staysReady : ∀ a, Ready w.records a → Ready w'.records a := by
    intro a ready
    refine (stays (· = .ready) (fun _ ready => ready ▸ rfl) a).mpr ⟨ready, fun leaves => ?_⟩
    obtain ⟨r, row, status, -⟩ := sound.readyRow ready
    obtain ⟨r', -, row', draining, -⟩ := retired.gone _ leaves
    cases row.symm.trans row'
    cases status.symm.trans draining
  refine ⟨fun k r' row' => ?_, fun k r' row' => ?_, fun k r' row' => ?_, fun a ha => ?_, ?_,
    fun t ref held => ?_, fun k r' row' dead => ?_⟩
  · obtain ⟨r, row, same, -⟩ := origin k r' row'
    exact same ▸ sound.keyed k r row
  · obtain ⟨r, row, same, -⟩ := origin k r' row'
    exact same ▸ sound.admitted k r row
  · obtain ⟨r, row, same, hash, -⟩ := origin k r' row'
    rw [same, hash]
    exact sound.hashed k r row
  · intro r hr
    obtain ⟨apart, requirement, parsed, b, ready, admitted⟩ :=
      sound.met a ((staysLive a).mp ha).1 r hr
    exact ⟨apart, requirement, parsed, b, staysReady b ready, admitted⟩
  · refine acyclic_leave (fun a => goes a.key) sound.finite sound.acyclic staysLive
      fun x d leaves needs => ?_
    rw [show Live w'.records = fun m => Live w.records m ∧ ¬goes m.key from
      funext fun a => propext (staysLive a)]
    exact untangled x d leaves needs
  · obtain ⟨held', stay⟩ := retired.refs t ref held
    obtain ⟨named, r, row, status⟩ := sound.refs t ref held'
    exact ⟨named, r, (retired.kept _ stay).trans row, status⟩
  · obtain ⟨r, row, -, -, ⟨-, rfl⟩ | ⟨leaves, -⟩⟩ := origin k r' row'
    · have bound := retired.inflight k
      have none := sound.idle k r' row dead
      omega
    · exact retired.idle k leaves

/-- One version is disposed of when nothing uses it. -/
theorem disposeIfUnused_retired {r' : PluginRecord} (keyed : Keyed w.records)
    (success : disposeIfUnused port w code id version = .ok (r', w')) :
    Retired w w' fun k => k = pluginKey id version ∧ w.inflight k = 0 ∧ HeldOnlyBy w k none ∧
      ∃ r, w.records.get? k = some r ∧ r.status = .draining := by
  obtain ⟨refs, inflight, r, row, ⟨busy, records⟩ | ⟨free, status, dead, records⟩⟩ :=
    disposeIfUnused_changes success
  · have stay : ∀ k, ¬(k = pluginKey id version ∧ w.inflight k = 0 ∧ HeldOnlyBy w k none ∧
        ∃ r, w.records.get? k = some r ∧ r.status = .draining) := by
      rintro _ ⟨rfl, none, held, r'', row', draining⟩
      cases row.symm.trans row'
      rw [(unused_iff keyed row).mpr ⟨draining, held, none⟩] at busy
      cases busy
    exact ⟨fun k _ => by rw [records], fun k leaves => absurd leaves (stay k),
      fun t ref held => ⟨refs ▸ held, stay _⟩, fun k => (congrFun inflight k).le,
      fun k leaves => absurd leaves (stay k)⟩
  · obtain ⟨draining, held, none⟩ := (unused_iff keyed row).mp free
    refine ⟨fun k stay => ?_, ?_, fun t ref found => ⟨refs ▸ found, ?_⟩,
      fun k => (congrFun inflight k).le, ?_⟩
    · rw [records, Table.get?_put, if_neg]
      rintro rfl
      exact stay ⟨rfl, none, held, r, row, draining⟩
    · rintro _ ⟨rfl, -⟩
      exact ⟨r, status, row, draining, dead, by rw [records, Table.get?_put, if_pos rfl]⟩
    · rintro ⟨same, -⟩
      cases held t ref (refs ▸ found) same
    · rintro _ ⟨rfl, -⟩
      rw [inflight]
      exact none

theorem Sound.leave (sound : Sound h w) (success : leave port w code id version = .ok w')
    (untangled : Untangled h w (Retires w (.leave code id version))) : Sound h w' := by
  simp only [PluginRegistry.leave, bind_eq_ok, require_eq_ok, exists_const, Except.ok.injEq] at success
  obtain ⟨called, ⟨r', w''⟩, hdispose, rfl⟩ := success
  generalize hinflight : Function.update w.inflight (pluginKey id version)
    (w.inflight (pluginKey id version) - 1) = inflight at hdispose
  have ended : Sound h { w with inflight } := by
    refine sound.of_same rfl rfl fun k => ?_
    show inflight k ≤ w.inflight k
    rw [← hinflight]
    by_cases same : k = pluginKey id version
    · subst same
      rw [Function.update_self]
      exact Nat.sub_le _ _
    · rw [Function.update_of_ne same]
  have retired := disposeIfUnused_retired ended.keyed hdispose
  refine ended.retired (Retires w (.leave code id version)) ?_ untangled
  have same : (fun k => k = pluginKey id version ∧ inflight k = 0 ∧ HeldOnlyBy w k none ∧
      ∃ r, w.records.get? k = some r ∧ r.status = .draining) = Retires w (.leave code id version) := by
    funext k
    refine propext (and_congr_right ?_)
    rintro rfl
    rw [← hinflight, Function.update_self]
    exact and_congr_left' ⟨fun h => by omega, fun h => by omega⟩
  rw [← same]
  exact retired

/-- The record that `drain` puts first. -/
def drained (r : PluginRecord) : PluginRecord :=
  { r with status := .draining, revision := r.revision + 1 }

/-- A live record is put over a live one of the same version. -/
theorem live_put {records : Table PluginKey PluginRecord} {r' : PluginRecord}
    (row : records.get? k = some r) (status : r.status.live = true) (status' : r'.status.live = true)
    (same : r'.manifest = r.manifest) : Live (records.put k r') = Live records := by
  funext a
  refine propext ⟨?_, ?_⟩
  · rintro ⟨k', r'', row', live, rfl⟩
    rw [Table.get?_put] at row'
    split at row'
    · cases row'
      exact ⟨k, r, row, status, same.symm⟩
    · exact ⟨k', r'', row', live, rfl⟩
  · rintro ⟨k', r'', row', live, rfl⟩
    by_cases here : k' = k
    · subst here
      cases row.symm.trans row'
      exact ⟨k', r', by rw [Table.get?_put, if_pos rfl], status', same⟩
    · exact ⟨k', r'', by rw [Table.get?_put, if_neg here]; exact row', live, rfl⟩

/-- Records that are not live do not matter to what is recovered. -/
theorem live_over {records records' : Table PluginKey PluginRecord}
    (others : ∀ k', k' ≠ k → records'.get? k' = records.get? k')
    (dead : ∀ r, records.get? k = some r → r.status.live = false)
    (dead' : ∀ r, records'.get? k = some r → r.status.live = false) :
    Live records' = Live records ∧ Ready records' = Ready records := by
  have both : ∀ {t t' : Table PluginKey PluginRecord} (p : PluginStatus → Prop) (a : PluginManifest),
      (∀ s, p s → s.live = true) → (∀ k', k' ≠ k → t'.get? k' = t.get? k') →
      (∀ r, t'.get? k = some r → r.status.live = false) →
      (∃ k r, t'.get? k = some r ∧ p r.status ∧ r.manifest = a) →
        ∃ k r, t.get? k = some r ∧ p r.status ∧ r.manifest = a := by
    rintro t t' p a lives others dead ⟨k', r, row, status, rfl⟩
    refine ⟨k', r, (others k' ?_).symm.trans row, status, rfl⟩
    rintro rfl
    cases (dead r row).symm.trans (lives _ status)
  have othersBack := fun k' apart => (others k' apart).symm
  have isReady : ∀ s : PluginStatus, s = .ready → s.live = true := fun _ ready => ready ▸ rfl
  exact ⟨funext fun a => propext
      ⟨both (fun s => s.live = true) a (fun _ live => live) others dead',
        both (fun s => s.live = true) a (fun _ live => live) othersBack dead⟩,
    funext fun a => propext ⟨both (· = .ready) a isReady others dead',
      both (· = .ready) a isReady othersBack dead⟩⟩

/-- A live version is marked as draining while others serve in its place. -/
theorem Sound.mark (sound : Sound h w) (row : w.records.get? k = some r)
    (status : r.status.live = true) (dispensable : Dispensable h w k) :
    Sound h { w with records := w.records.put k (drained r) } := by
  have read : ∀ k', (w.records.put k (drained r)).get? k' =
      if k' = k then some (drained r) else w.records.get? k' := fun k' => Table.get?_put ..
  have lives : Live (w.records.put k (drained r)) = Live w.records := live_put row status rfl rfl
  have ready : ∀ a, Ready w.records a → a.key ≠ k → Ready (w.records.put k (drained r)) a := by
    rintro a ⟨k', r', row', isReady, rfl⟩ apart
    refine ⟨k', r', ?_, isReady, rfl⟩
    rw [read, if_neg, row']
    rintro rfl
    exact apart (sound.keyed _ r' row')
  refine ⟨fun k' r' row' => ?_, fun k' r' row' => ?_, fun k' r' row' => ?_, fun a ha r' hr' => ?_,
    by rw [lives]; exact sound.acyclic, fun t ref held => ?_, fun k' r' row' dead => ?_⟩
  · rw [read] at row'
    split at row'
    · rename_i here
      cases row'
      exact here ▸ sound.keyed k r row
    · exact sound.keyed k' r' row'
  · rw [read] at row'
    split at row'
    · cases row'
      exact sound.admitted k r row
    · exact sound.admitted k' r' row'
  · rw [read] at row'
    split at row'
    · cases row'
      exact sound.hashed k r row
    · exact sound.hashed k' r' row'
  · rw [lives] at ha
    obtain ⟨apart, requirement, parsed, b, isReady, admitted⟩ := sound.met a ha r' hr'
    refine ⟨apart, requirement, parsed, ?_⟩
    by_cases same : b.key = k
    · obtain ⟨c, readyC, apartC, admittedC⟩ :=
        dispensable a ha r' hr' requirement parsed b isReady same admitted
      exact ⟨c, ready c readyC apartC, admittedC⟩
    · exact ⟨b, ready b isReady same, admitted⟩
  · obtain ⟨named, r', row', live⟩ := sound.refs t ref held
    refine ⟨named, ?_⟩
    rw [read]
    split
    · exact ⟨drained r, rfl, rfl⟩
    · exact ⟨r', row', live⟩
  · rw [read] at row'
    split at row'
    · cases row'
      cases dead
    · exact sound.idle k' r' row' dead

/-- A version that is not live, so that nothing uses it, is disposed of again. -/
theorem Sound.redispose (sound : Sound h w) (row : w.records.get? k = some r)
    (status : r.status.live = false) (goes : PluginKey → Prop) (here : goes k)
    (only : ∀ k', goes k' → k' = k)
    (retired : Retired { w with records := w.records.put k (drained r) } w' goes) : Sound h w' := by
  have others : ∀ k', k' ≠ k → w'.records.get? k' = w.records.get? k' := by
    intro k' apart
    rw [retired.kept k' fun leaves => apart (only k' leaves)]
    exact (Table.get?_put ..).trans (if_neg apart)
  obtain ⟨r₁, status₁, row₁, -, dead, put⟩ := retired.gone k here
  have same : r₁ = drained r := by
    have found := (Table.get?_put w.records k k (drained r)).symm.trans row₁
    rw [if_pos rfl] at found
    exact (Option.some.inj found).symm
  subst same
  obtain ⟨lives, readies⟩ := live_over others
    (fun r' row' => by cases row.symm.trans row'; exact status)
    (fun r' row' => by cases put.symm.trans row'; exact dead)
  -- the record of the key is still of the version
  have origin : ∀ k' r', w'.records.get? k' = some r' → ∃ r₀, w.records.get? k' = some r₀ ∧
      r'.manifest = r₀.manifest ∧ r'.manifestHash = r₀.manifestHash := by
    intro k' r' row'
    by_cases apart : k' = k
    · subst apart
      cases put.symm.trans row'
      exact ⟨r, row, rfl, rfl⟩
    · exact ⟨r', others k' apart ▸ row', rfl, rfl⟩
  refine ⟨fun k' r' row' => ?_, fun k' r' row' => ?_, fun k' r' row' => ?_,
    by rw [lives, readies]; exact sound.met, by rw [lives]; exact sound.acyclic, fun t ref held => ?_,
    fun k' r' row' dead' => ?_⟩
  · obtain ⟨r₀, row₀, same, -⟩ := origin k' r' row'
    exact same ▸ sound.keyed k' r₀ row₀
  · obtain ⟨r₀, row₀, same, -⟩ := origin k' r' row'
    exact same ▸ sound.admitted k' r₀ row₀
  · obtain ⟨r₀, row₀, same, hash⟩ := origin k' r' row'
    rw [same, hash]
    exact sound.hashed k' r₀ row₀
  · obtain ⟨named, r', row', live⟩ := sound.refs t ref (retired.refs t ref held).1
    refine ⟨named, r', (others _ ?_).trans row', live⟩
    rintro same
    rw [same] at row'
    cases row.symm.trans row'
    cases status.symm.trans live
  · by_cases apart : k' = k
    · subst apart
      exact retired.idle k' here
    · have bound : w'.inflight k' ≤ w.inflight k' := retired.inflight k'
      have none := sound.idle k' r' (others k' apart ▸ row') dead'
      omega

theorem Sound.drain {r' : PluginRecord} (sound : Sound h w)
    (success : drain port w code id version = .ok (r', w'))
    (dispensable : Dispensable h w (pluginKey id version))
    (untangled : Untangled h w (Retires w (.drain code id version))) : Sound h w' := by
  simp only [PluginRegistry.drain, record, bind_eq_ok, orThrow_eq_ok] at success
  obtain ⟨r, row, success⟩ := success
  split at success
  · simp only [Except.ok.injEq, Prod.mk.injEq] at success
    obtain ⟨-, rfl⟩ := success
    exact sound
  · have read : (w.records.put (pluginKey id version) (drained r)).get? (pluginKey id version) =
        some (drained r) := (Table.get?_put ..).trans (if_pos rfl)
    have keyed : Keyed (w.records.put (pluginKey id version) (drained r)) := by
      intro k' r₁ row'
      rw [Table.get?_put] at row'
      split at row'
      · rename_i here
        cases row'
        exact here ▸ sound.keyed _ r row
      · exact sound.keyed k' r₁ row'
    have retired := disposeIfUnused_retired
      (w := { w with records := w.records.put (pluginKey id version) (drained r) }) keyed success
    have same : (fun k => k = pluginKey id version ∧ w.inflight k = 0 ∧ HeldOnlyBy w k none ∧
        ∃ r₁, (w.records.put (pluginKey id version) (drained r)).get? k = some r₁ ∧
          r₁.status = .draining) = Retires w (.drain code id version) := by
      funext k
      refine propext ⟨fun leaves => ⟨leaves.1, leaves.2.1, leaves.2.2.1⟩, ?_⟩
      rintro ⟨rfl, none, held⟩
      exact ⟨rfl, none, held, drained r, read, rfl⟩
    have retired' : Retired { w with records := w.records.put (pluginKey id version) (drained r) } w'
        (Retires w (.drain code id version)) := same ▸ retired
    cases status : r.status.live with
    | true =>
        refine (sound.mark row status dispensable).retired _ retired' ?_
        have lives : Live (w.records.put (pluginKey id version) (drained r)) = Live w.records :=
          live_put row status rfl rfl
        show ∀ x d, _ → Needs h (Live (w.records.put (pluginKey id version) (drained r))) x d → _
        rw [lives]
        exact untangled
    | false =>
        refine sound.redispose row status (Retires w (.drain code id version))
          ⟨rfl, sound.idle _ r row status, fun t ref held same => ?_⟩ (fun k' leaves => leaves.1) retired'
        obtain ⟨-, r₁, row₁, live⟩ := sound.refs t ref held
        rw [same] at row₁
        cases row.symm.trans row₁
        cases status.symm.trans live

/-- Where `release_run` stands: these versions have been disposed of, those that it will still dispose
of are held by references it has not reached. -/
structure Releasing (w₀ w : PluginWorld E) (code : PluginKey → PluginCode) (run : RunText)
    (rest : List PluginRef) (gone : PluginKey → Prop) : Prop where
  retired : Retired w₀ w gone
  inflight : w.inflight = w₀.inflight
  within : ∀ k, gone k → Retires w₀ (.releaseRun code run) k
  others : ∀ t ref, w₀.refs.get t = some ref → ref.runId ≠ run → w.refs.get t = some ref
  reached : ∀ t ref, w.refs.get t = some ref → ref.runId = run → ref ∈ rest
  held : ∀ k, Retires w₀ (.releaseRun code run) k → ¬gone k →
    ∃ t ref, w.refs.get t = some ref ∧ pluginKey ref.pluginId ref.version = k
  listed : ∀ ref ∈ rest, ∃ t, w₀.refs.get t = some ref

theorem Releasing.step {w₀ : PluginWorld E} {code : PluginKey → PluginCode} {run : RunText}
    {reference : PluginRef} {rest : List PluginRef} {gone : PluginKey → Prop} {r' : PluginRecord}
    (sound : Sound h w₀) (releasing : Releasing w₀ w code run (reference :: rest) gone)
    (own : reference.runId = run) (success : disposeIfUnused port
      { w with refs := w.refs.delete (refKey reference.pluginId reference.version run) }
      (code (pluginKey reference.pluginId reference.version)) reference.pluginId reference.version =
        .ok (r', w')) : ∃ gone', Releasing w₀ w' code run rest gone' := by
  obtain ⟨t₀, row₀⟩ := releasing.listed reference (List.mem_cons_self ..)
  obtain ⟨rfl, -⟩ := sound.refs t₀ reference row₀
  rw [own] at row₀
  generalize hkey : pluginKey reference.pluginId reference.version = k₀ at success
  generalize ht : refKey reference.pluginId reference.version run = t₀ at success row₀
  have keyed : Keyed w.records := by
    intro k r row
    by_cases leaves : gone k
    · obtain ⟨r₀, status, before, -, -, put⟩ := releasing.retired.gone k leaves
      cases row.symm.trans put
      exact sound.keyed k r₀ before
    · exact sound.keyed k r (releasing.retired.kept k leaves ▸ row)
  have disposed := disposeIfUnused_retired (w := { w with refs := w.refs.delete t₀ }) keyed success
  obtain ⟨refs', inflight', -⟩ := disposeIfUnused_changes success
  have refs : ∀ t, w'.refs.get t = if t = t₀ then none else w.refs.get t := by
    intro t
    rw [refs']
    exact Versioned.get_delete ..
  have inflight : w'.inflight = w₀.inflight := inflight'.trans releasing.inflight
  rw [hkey] at disposed
  -- what is disposed of here was to be disposed of
  have due : ∀ k, (k = k₀ ∧ w.inflight k = 0 ∧
      HeldOnlyBy { w with refs := w.refs.delete t₀ } k none ∧
      ∃ r, w.records.get? k = some r ∧ r.status = .draining) →
      Retires w₀ (.releaseRun code run) k ∧ ¬gone k := by
    rintro k ⟨rfl, none, held, r, row, draining⟩
    have stay : ¬gone k := by
      intro leaves
      obtain ⟨r₀, status, -, -, dead, put⟩ := releasing.retired.gone k leaves
      cases row.symm.trans put
      cases (draining : status = .draining)
      cases dead
    refine ⟨⟨by rw [← releasing.inflight]; exact none, fun t ref found same => ?_,
      ⟨t₀, reference, row₀, hkey⟩, r, (releasing.retired.kept k stay).symm.trans row, draining⟩, stay⟩
    by_contra other
    have apart : ref.runId ≠ run := fun same => other (congrArg some same)
    have kept := releasing.others t ref found apart
    have there : (w.refs.delete t₀).get t = some ref := by
      rw [Versioned.get_delete, if_neg, kept]
      rintro rfl
      cases row₀.symm.trans found
      exact apart own
    cases held t ref there same
  refine ⟨fun k => gone k ∨ (k = k₀ ∧ w.inflight k = 0 ∧
      HeldOnlyBy { w with refs := w.refs.delete t₀ } k none ∧
      ∃ r, w.records.get? k = some r ∧ r.status = .draining), ⟨⟨fun k stay => ?_, fun k leaves => ?_,
        fun t ref found => ?_, fun k => (congrFun inflight k).le, fun k leaves => ?_⟩, inflight,
      fun k leaves => ?_, fun t ref found apart => ?_, fun t ref found same => ?_,
      fun k retires stay => ?_, fun ref hr => releasing.listed ref (List.mem_cons_of_mem _ hr)⟩⟩
  · rw [not_or] at stay
    exact (disposed.kept k stay.2).trans (releasing.retired.kept k stay.1)
  · rcases leaves with leaves | leaves
    · obtain ⟨r₀, status, before, draining, dead, put⟩ := releasing.retired.gone k leaves
      refine ⟨r₀, status, before, draining, dead, ?_⟩
      rw [disposed.kept k fun again => (due k again).2 leaves]
      exact put
    · obtain ⟨r₀, status, row, draining, dead, put⟩ := disposed.gone k leaves
      exact ⟨r₀, status, (releasing.retired.kept k (due k leaves).2).symm.trans row, draining, dead, put⟩
  · obtain ⟨found', stay⟩ := disposed.refs t ref found
    have before : w.refs.get t = some ref := by
      rw [refs] at found
      split at found
      · cases found
      · exact found
    obtain ⟨first, stay'⟩ := releasing.retired.refs t ref before
    exact ⟨first, fun leaves => leaves.elim stay' stay⟩
  · rw [inflight]
    rcases leaves with leaves | leaves
    · exact (releasing.within k leaves).1
    · exact (due k leaves).1.1
  · exact leaves.elim (releasing.within k) fun leaves => (due k leaves).1
  · rw [refs, if_neg, releasing.others t ref found apart]
    rintro rfl
    cases row₀.symm.trans found
    exact apart own
  · rw [refs] at found
    split at found
    · cases found
    · rename_i other
      have listed := releasing.reached t ref found same
      rcases List.mem_cons.mp listed with rfl | listed
      · obtain ⟨named, -⟩ := sound.refs t ref (releasing.retired.refs t ref found).1
        rw [same, ht] at named
        exact absurd named other
      · exact listed
  · rw [not_or] at stay
    obtain ⟨t, ref, found, same⟩ := releasing.held k retires stay.1
    by_cases here : t = t₀
    · -- the reference that is deleted: the version is held by another, or disposed of
      subst here
      have ref_eq : ref = reference :=
        Option.some.inj ((releasing.retired.refs t ref found).1.symm.trans row₀)
      subst ref_eq
      rw [hkey] at same
      subst same
      by_contra none
      push Not at none
      obtain ⟨idle, -, -, r, row, draining⟩ := retires
      refine stay.2 ⟨rfl, by rw [releasing.inflight]; exact idle, fun t ref held same => ?_, r,
        (releasing.retired.kept _ stay.1).trans row, draining⟩
      exact absurd same (none t ref (by rw [refs']; exact held))
    · exact ⟨t, ref, by rw [refs, if_neg here]; exact found, same⟩

theorem releaseAll_releasing {w₀ : PluginWorld E} {code : PluginKey → PluginCode} {run : RunText}
    (sound : Sound h w₀) : ∀ (rest : List PluginRef) (w : PluginWorld E) (gone : PluginKey → Prop),
      Releasing w₀ w code run rest gone → releaseAll port code run w rest = .ok w' →
      ∃ gone', Releasing w₀ w' code run [] gone'
  | [], w, gone, releasing, success => by
      cases success
      exact ⟨gone, releasing⟩
  | reference :: rest, w, gone, releasing, success => by
      rw [releaseAll] at success
      split at success
      · rename_i own
        obtain ⟨⟨r', w₁⟩, hdispose, success⟩ := bind_eq_ok.mp success
        obtain ⟨gone', releasing'⟩ := releasing.step sound own hdispose
        exact releaseAll_releasing sound rest w₁ gone' releasing' success
      · rename_i other
        refine releaseAll_releasing sound rest w gone
          ⟨releasing.retired, releasing.inflight, releasing.within, releasing.others,
            fun t ref found same => ?_, releasing.held,
            fun ref hr => releasing.listed ref (List.mem_cons_of_mem _ hr)⟩ success
        rcases List.mem_cons.mp (releasing.reached t ref found same) with rfl | listed
        · exact absurd same other
        · exact listed

theorem Sound.releaseRun {code : PluginKey → PluginCode} {run : RunText} (sound : Sound h w)
    (success : releaseRun port w code run = .ok w')
    (untangled : Untangled h w (Retires w (.releaseRun code run))) : Sound h w' := by
  have start : Releasing w w code run w.refs.list fun _ => False :=
    ⟨⟨fun _ _ => rfl, fun _ leaves => leaves.elim, fun _ _ found => ⟨found, fun leaves => leaves.elim⟩,
      fun _ => le_rfl, fun _ leaves => leaves.elim⟩, rfl, fun _ leaves => leaves.elim,
      fun _ _ found _ => found, fun t ref found _ => Versioned.mem_list.mpr ⟨t, found⟩,
      fun k retires _ => retires.2.2.1, fun ref listed => Versioned.mem_list.mp listed⟩
  obtain ⟨gone, releasing⟩ := releaseAll_releasing sound _ w _ start success
  have all : gone = Retires w (.releaseRun code run) := by
    funext k
    refine propext ⟨releasing.within k, fun retires => ?_⟩
    by_contra stay
    obtain ⟨t, ref, found, same⟩ := releasing.held k retires stay
    have own := retires.2.1 t ref (releasing.retired.refs t ref found).1 same
    exact absurd (releasing.reached t ref found (Option.some.inj own)) List.not_mem_nil
  exact sound.retired _ (all ▸ releasing.retired) untangled

/-! ## Recovering -/

theorem Sound.stop (sound : Sound h w) : Sound h (stop port w) :=
  sound.of_same rfl rfl fun _ => Nat.zero_le _

/-- Loading a version again raises only what its own code or the registration of its contributions
raises. -/
theorem Sound.load_ok (sound : Sound h w) (port : ExtensionPort E) (code : PluginCode)
    (live : Live w.records m) :
    (∃ r, (PluginRegistry.load h port w code m true).1 = .ok r) ∨
      ∃ e, install port w.extensions code m = .error e ∧
        (PluginRegistry.load h port w code m true).1 = .error e := by
  obtain ⟨r, row, status, rfl⟩ := sound.row live
  have admitted : vet h w r.manifest = .ok () :=
    vet_ok (sound.admitted _ r row) (sound.met _ live)
  have known : ¬(true = true ∧ (w.records.get? r.manifest.key).any (fun r => r.status.live) = false) := by
    rw [row]
    simp [status]
  have same : ¬(w.records.get? r.manifest.key).any (fun r' => r'.manifestHash ≠ r.manifest) = true := by
    rw [row]
    simp [sound.hashed _ r row]
  unfold PluginRegistry.load
  rw [admitted]
  dsimp only
  rw [if_neg known, if_neg same]
  split
  · exact .inl ⟨_, rfl⟩
  · split
    · rename_i e raised
      exact .inr ⟨e, raised, rfl⟩
    · exact .inl ⟨_, rfl⟩

theorem Sound.rehydrateAll (port : ExtensionPort E) (code : PluginKey → PluginCode) : ∀ (order : List PluginManifest)
    (w : PluginWorld E), Sound h w → (∀ m ∈ order, Live w.records m) →
    Sound h (rehydrateAll h port code w order).2 ∧
      ((PluginRegistry.rehydrateAll h port code w order).1 = .ok () ∨ ∃ m ∈ order, ∃ extensions e,
        install port extensions (code m.key) m = .error e ∧
          (PluginRegistry.rehydrateAll h port code w order).1 = .error e)
  | [], w, sound, _ => ⟨sound, .inl rfl⟩
  | m :: rest, w, sound, lives => by
      obtain ⟨sound', live', -⟩ := sound.reload port (code m.key) m
      have next := Sound.rehydrateAll port code rest _ sound' fun a ha => by
        rw [live']
        exact lives a (List.mem_cons_of_mem _ ha)
      rcases sound.load_ok port (code m.key) (lives m (List.mem_cons_self ..)) with
        ⟨r, loaded⟩ | ⟨e, raised, failed⟩
      · have run : PluginRegistry.rehydrateAll h port code w (m :: rest) =
            PluginRegistry.rehydrateAll h port code (PluginRegistry.load h port w (code m.key) m true).2 rest := by
          rw [PluginRegistry.rehydrateAll]
          rw [show PluginRegistry.load h port w (code m.key) m true =
            (.ok r, (PluginRegistry.load h port w (code m.key) m true).2) from Prod.ext loaded rfl]
        rw [run]
        refine ⟨next.1, next.2.imp_right ?_⟩
        rintro ⟨a, ha, found⟩
        exact ⟨a, List.mem_cons_of_mem _ ha, found⟩
      · have run : PluginRegistry.rehydrateAll h port code w (m :: rest) =
            (.error e, (PluginRegistry.load h port w (code m.key) m true).2) := by
          rw [PluginRegistry.rehydrateAll]
          rw [show PluginRegistry.load h port w (code m.key) m true =
            (.error e, (PluginRegistry.load h port w (code m.key) m true).2) from Prod.ext failed rfl]
        rw [run]
        exact ⟨sound', .inr ⟨m, List.mem_cons_self .., w.extensions, e, raised, rfl⟩⟩

/-- The order of what is recovered. -/
theorem Sound.resolves (sound : Sound h w) : ∃ order,
    resolveDependencies h (installed w.records) (live w.records) = .ok order ∧ order.Nodup ∧
      order.Perm (live w.records) ∧ ∀ before a after, order = before ++ a :: after →
        ∀ b, Needs h (Live w.records) a b → b ∈ before := by
  have lists : (fun a => a ∈ live w.records) = Live w.records :=
    funext fun a => propext mem_live
  have ready : (fun a => a ∈ installed w.records) = Ready w.records :=
    funext fun a => propext mem_installed
  obtain ⟨order, run, nodup, perm, after⟩ := resolveDependencies_ok (h := h)
    (pairwise_manifests sound.keyed PluginStatus.live)
    (fun a ha => mem_live.mpr (mem_installed.mp ha).live)
    (fun a ha => ready ▸ sound.met a (mem_live.mp ha))
    (fun a => by
      show ¬TransGen (Needs h fun a => a ∈ live w.records) a a
      rw [lists]
      exact sound.acyclic a)
  refine ⟨order, run, nodup, perm, fun before a rest split b needs => after before a rest split b ?_⟩
  show Needs h (fun a => a ∈ live w.records) a b
  rw [lists]
  exact needs

theorem Sound.recover (sound : Sound h w) (port : ExtensionPort E) (code : PluginKey → PluginCode) :
    Sound h (recover h port w code).2 ∧ ((PluginRegistry.recover h port w code).1 = .ok () ∨
      ∃ m, Live w.records m ∧ ∃ extensions e, install port extensions (code m.key) m = .error e ∧
        (PluginRegistry.recover h port w code).1 = .error e) := by
  obtain ⟨order, run, -, perm, -⟩ := sound.resolves
  have lives : ∀ m ∈ order, Live w.records m := fun m hm => mem_live.mp (perm.mem_iff.mp hm)
  unfold PluginRegistry.recover
  rw [run]
  dsimp only
  obtain ⟨sound', done | ⟨m, hm, found⟩⟩ := Sound.rehydrateAll port code order w
    sound lives
  · exact ⟨sound', .inl done⟩
  · exact ⟨sound', .inr ⟨m, lives m hm, found⟩⟩

/-! ## Runs -/

theorem Sound.step {a : PluginAction} (sound : Sound h w) (orderly : Orderly h w a) :
    Sound h (w.after h port a) := by
  cases a with
  | load code m rehydrate => exact sound.load rehydrate orderly
  | bindRun id version run =>
      rw [PluginWorld.after]
      cases success : PluginRegistry.bindRun w id version run with
      | error e => exact sound
      | ok bound => exact sound.bindRun success
  | restoreRun id version run manifestHash =>
      rw [PluginWorld.after]
      cases success : PluginRegistry.restoreRun w id version run manifestHash with
      | error e => exact sound
      | ok restored => exact sound.restoreRun success
  | enter id version run =>
      rw [PluginWorld.after]
      cases success : PluginRegistry.enter w id version run with
      | error e => exact sound
      | ok entered => exact sound.enter success
  | leave code id version =>
      rw [PluginWorld.after]
      cases success : PluginRegistry.leave port w code id version with
      | error e => exact sound
      | ok left => exact sound.leave success orderly
  | drain code id version =>
      rw [PluginWorld.after]
      cases success : PluginRegistry.drain port w code id version with
      | error e => exact sound
      | ok drained => exact sound.drain success orderly.1 orderly.2
  | releaseRun code run =>
      rw [PluginWorld.after]
      cases success : PluginRegistry.releaseRun port w code run with
      | error e => exact sound
      | ok released => exact sound.releaseRun success orderly
  | stop => exact sound.stop
  | recover code => exact (sound.recover port code).1

theorem sound {start : E} (reach : ((pluginSystem h port start).restrict (Orderly h)).Reachable w) :
    Sound h w := by
  refine reach.invariant (fun w init => ?_) fun w a w' _ sound step => ?_
  · subst init
    refine ⟨fun _ _ row => (by cases row), fun _ _ row => (by cases row), fun _ _ row => (by cases row),
      ?_, fun a cycle => ?_, fun _ _ held => (by cases held), fun _ _ row => (by cases row)⟩
    · rintro m ⟨_, _, row, -⟩
      cases row
    · obtain ⟨b, -, _, _, _, _, ⟨_, _, row, -⟩, -⟩ := TransGen.tail'_iff.mp cycle
      cases row
  · obtain ⟨orderly, next⟩ := step
    cases next
    exact sound.step orderly

/-- In a run of orderly calls, stopped at any point, the order of what was ready or draining has each
version once and after the versions that its requirements are resolved against, and recovering it raises
only what the installation of a plugin raises. -/
theorem recovery_total {start : E}
    (reach : ((pluginSystem h port start).restrict (Orderly h)).Reachable w) :
    (∃ order, resolveDependencies h (installed w.records) (live w.records) = .ok order ∧
      (order.map PluginManifest.key).Nodup ∧ order.Perm (live w.records) ∧
      ∀ before m after, order = before ++ m :: after → ∀ r ∈ m.requires, ∃ b ∈ before,
        choose h (installed w.records) (live w.records) r = .ok (some b)) ∧
    ∀ code, (recover h port (stop port w) code).1 = .ok () ∨
      ∃ m ∈ live w.records, ∃ extensions e, install port extensions (code m.key) m = .error e ∧
        (recover h port (stop port w) code).1 = .error e := by
  have sound := sound reach
  have sorted := pairwise_manifests sound.keyed PluginStatus.live
  have lists : (fun a => a ∈ live w.records) = Live w.records := funext fun a => propext mem_live
  obtain ⟨order, run, -, perm, after⟩ := sound.resolves
  have distinct : ((live w.records).map PluginManifest.key).Nodup := by
    rw [List.Nodup, List.pairwise_map]
    exact sorted.imp fun below => below.ne
  refine ⟨⟨order, run, (perm.map _).nodup_iff.mpr distinct, perm, fun before m rest split r hr => ?_⟩,
    fun code => ?_⟩
  · have inside : m ∈ live w.records :=
      perm.mem_iff.mp (split ▸ List.mem_append_right _ (List.mem_cons_self ..))
    obtain ⟨-, requirement, parsed, a, ready, admitted⟩ := sound.met m (mem_live.mp inside) r hr
    obtain ⟨b, serves⟩ := exists_serves sorted parsed (mem_live.mpr ready.live) admitted
    refine ⟨b, after before m rest split b ⟨r, hr, ?_⟩, (choose_eq_some sorted).mpr serves⟩
    rw [← lists]
    exact serves
  · obtain ⟨-, done | ⟨m, hm, found⟩⟩ := sound.stop.recover port code
    · exact .inl done
    · exact .inr ⟨m, mem_live.mpr hm, found⟩

end PluginRegistry

/-! ## A version and what it requires -/

namespace Sample

/-- Versions by the lengths of their texts; every specifier admits all. -/
def versions : PluginHost Nat where
  version text := text.length
  specifier _ := some fun _ => true
  harnessApi := 1
  factories _ := true

/-- Contributions are not looked at. -/
def declared : ExtensionPort Unit where
  registerAtomic _ _ := .ok ()
  unregister _ _ _ := .ok ()
  forget _ _ _ := ()
  restart _ := ()

def required : PluginManifest := { id := "a", version := "1", harnessApi := ">=1" }

def requiring : PluginManifest :=
  { id := "b", version := "1", harnessApi := ">=1", requires := [("a", ">=1")] }

end Sample

/-- A version is recovered after the one that it requires. -/
theorem recovery_total_required : ∃ w : PluginWorld Unit,
    PluginRegistry.live w.records = [Sample.required, Sample.requiring] ∧
    ∃ order, PluginRegistry.resolveDependencies Sample.versions
        (PluginRegistry.installed w.records) (PluginRegistry.live w.records) = .ok order ∧
      order.Perm [Sample.required, Sample.requiring] := by
  have init : ((pluginSystem Sample.versions Sample.declared ()).restrict
      (PluginRegistry.Orderly Sample.versions)).Reachable { extensions := () } := .init rfl
  -- the first requires nothing, and no requirement is for the second
  have first : PluginRegistry.Orderly Sample.versions ({ extensions := () } : PluginWorld Unit)
      (.load {} Sample.required false) := by
    intro _ cycle
    obtain ⟨b, ⟨r, hr, -⟩, -⟩ := Relation.TransGen.head'_iff.mp cycle
    cases hr
  have second : PluginRegistry.Orderly Sample.versions
      (({ extensions := () } : PluginWorld Unit).after Sample.versions Sample.declared
        (.load {} Sample.required false)) (.load {} Sample.requiring false) := by
    intro _ cycle
    obtain ⟨b, path, r, hr, _, _, _, admitted, _⟩ := Relation.TransGen.tail'_iff.mp cycle
    have inside : b = Sample.requiring ∨ b = Sample.required := by
      rcases Relation.ReflTransGen.cases_tail path with same | ⟨c, -, _, -, -, -, same | alive, -⟩
      · exact .inl same
      · exact .inl same
      · have listed := PluginRegistry.mem_live.mpr alive
        exact .inr (List.mem_singleton.mp listed)
    rcases inside with rfl | rfl
    · cases List.mem_singleton.mp hr
      simp [PluginRegistry.admits, Sample.requiring] at admitted
    · cases hr
  have reach := (init.step (a := .load {} Sample.required false) ⟨first, rfl⟩).step
    (a := .load {} Sample.requiring false) ⟨second, rfl⟩
  obtain ⟨⟨order, run, -, perm, -⟩, -⟩ := PluginRegistry.recovery_total reach
  exact ⟨_, by decide +kernel, order, run, perm⟩

/-- The version that another requires is drained, and the recovery raises. -/
theorem recovery_stuck : ∃ w : PluginWorld Unit,
    (pluginSystem Sample.versions Sample.declared ()).Reachable w ∧
    (PluginRegistry.recover Sample.versions Sample.declared
      (PluginRegistry.stop Sample.declared w) fun _ => {}).1 =
      .error (PluginRegistry.valueError "missing plugin dependency: a") := by
  have init : (pluginSystem Sample.versions Sample.declared ()).Reachable { extensions := () } :=
    .init rfl
  refine ⟨_, ((init.step (a := .load {} Sample.required false) rfl).step
    (a := .load {} Sample.requiring false) rfl).step (a := .drain {} "a" "1") rfl, ?_⟩
  decide +kernel

end MiHarness
