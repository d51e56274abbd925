import Mathlib.Data.List.Infix
import Mathlib.Data.List.Sort
import MiHarness.Tools.Reading

/-!
# Searching files

`search_files` walks a directory from the top: in each directory it first looks at the files, by name,
and then goes into the directories, by name, that are not excluded and that the policy admits.  It ends
early at the limit of results or of files, and says so.

What it leaves out without saying so is a directory that cannot be listed, a file that is larger than
two mebibytes, and what follows an error of a file.  `search_complete` is about the lines that are left:
`complete` says that the scan was not stopped early.
-/

namespace MiHarness

open Library Library.Utf8

/-! ## Trees -/

/-- A file as a search finds it: what the check of its path, its status and reading it raise. -/
structure SearchFile where
  policy : Option FileError
  regular : Bool
  stat : Option FileError
  bytes : Bytes
  /-- Reading raises behind so many lines. -/
  fault : Option (Nat × FileError)

/-- A directory is listed, or listing it raises. -/
inductive SearchEntry where
  | file (f : SearchFile)
  | directory (policy : Option FileError) (listed : Bool) (entries : List (String × SearchEntry))

def searchExcludedDirectories : List String :=
  [".git", ".idea", ".pytest_cache", ".ruff_cache", ".venv", "__pycache__", "node_modules"]

def searchFileLimit : Nat := 20000

def searchFileMaxBytes : Nat := 2 * 1024 * 1024

def searchLineMaxChars : Nat := 1000

/-! ## The walk -/

/-- A path that the generator yields, or what it raises. -/
abbrev Candidate := Except FileError (List String × SearchFile)

/-- What `os.walk` finds of an entry: a file, or a directory with what is yielded below it. -/
inductive SearchFound where
  | file (f : SearchFile)
  | directory (policy : Option FileError) (below : List Candidate)

/-- The check of a directory raises what the loop over the directories does not catch. -/
def SearchFound.raised (name : String) : SearchFound → List Candidate
  | .directory (some .other) _ => if name ∈ searchExcludedDirectories then [] else [.error .other]
  | _ => []

def SearchFound.files (path : List String) (name : String) : SearchFound → List Candidate
  | .file f => [.ok (path ++ [name], f)]
  | .directory _ _ => []

def SearchFound.kept (name : String) : SearchFound → List Candidate
  | .directory none below => if name ∈ searchExcludedDirectories then [] else below
  | _ => []

/-- The names of a directory, sorted: first its directories are pruned, then its files are yielded, and
then the walk goes below the directories that are kept. -/
def visitDirectory (path : List String) (found : List (String × SearchFound)) : List Candidate :=
  let sorted := found.insertionSort fun a b => a.1 ≤ b.1
  sorted.flatMap (fun e => e.2.raised e.1) ++ sorted.flatMap (fun e => e.2.files path e.1) ++
    sorted.flatMap fun e => e.2.kept e.1

mutual

def SearchEntry.found (path : List String) : SearchEntry → SearchFound
  | .file f => .file f
  | .directory policy listed entries =>
      .directory policy (if listed = true then visitDirectory path (findEntries path entries) else [])

def findEntries (path : List String) : List (String × SearchEntry) → List (String × SearchFound)
  | [] => []
  | (name, e) :: entries => (name, e.found (path ++ [name])) :: findEntries path entries

end

/-- `candidates`, from the root of the search. -/
def SearchEntry.candidates (path : List String) (root : SearchEntry) : List Candidate :=
  match root.found path with
  | .file f => [.ok (path, f)]
  | .directory _ below => below

/-! ## The search -/

/-- `str.casefold`, `fnmatch` and the display of paths. -/
structure SearchHost where
  casefold : List Char → List Char
  fnmatch : String → String → Bool
  display : List String → String

structure SearchArgs where
  pattern : List Char
  glob : Option String := none
  maxResults : Option Nat := none

structure SearchMatch where
  path : String
  line : Nat
  text : List Char
  textTruncated : Bool
deriving DecidableEq, Repr

inductive StopReason where
  | fileLimit | resultLimit
deriving DecidableEq, Repr

def StopReason.label : StopReason → String
  | .fileLimit => "file_limit"
  | .resultLimit => "result_limit"

structure SearchResult where
  summary : String
  results : List SearchMatch
  complete : Bool
  stopReason : Option StopReason
  truncated : Bool

def SearchArgs.limit (args : SearchArgs) : Nat := args.maxResults.getD 100

/-- `line.rstrip("\r\n")`. -/
def rstripEnds (line : List Char) : List Char :=
  (line.reverse.dropWhile fun c => c = '\r' || c = '\n').reverse

def SearchHost.record (host : SearchHost) (path : List String) (lineNo : Nat) (line : List Char) :
    SearchMatch where
  path := host.display path
  line := lineNo
  text := (rstripEnds line).take searchLineMaxChars
  textTruncated := decide (searchLineMaxChars < (rstripEnds line).length)

/-- The pattern is in the line. -/
abbrev SearchHost.Contains (host : SearchHost) (args : SearchArgs) (line : List Char) : Prop :=
  host.casefold args.pattern <:+: host.casefold line

/-- The loop over the lines of a file: the results, and whether it stops at the limit. -/
def SearchHost.scanLines (host : SearchHost) (args : SearchArgs) (path : List String) :
    Nat → List (List Char) → List SearchMatch → List SearchMatch × Bool
  | _, [], results => (results, false)
  | lineNo, line :: source, results =>
      if ¬host.Contains args line then host.scanLines args path (lineNo + 1) source results
      else if args.limit ≤ results.length then (results, true)
      else host.scanLines args path (lineNo + 1) source (results ++ [host.record path lineNo line])

/-- The lines that are read before reading raises. -/
def SearchFile.lines (f : SearchFile) : List (List Char) :=
  match f.fault with
  | some (n, _) => (textLines f.bytes).take n
  | none => textLines f.bytes

/-- The loop over the candidates. -/
def SearchHost.searchFiles (host : SearchHost) (args : SearchArgs) :
    List Candidate → List SearchMatch → Nat → Except FileError (List SearchMatch × Option StopReason)
  | [], results, _ => .ok (results, none)
  | .error e :: _, _, _ => .error e
  | .ok (path, f) :: rest, results, examined =>
      if host.fnmatch (path.getLastD "") (args.glob.getD "*") = false then
        host.searchFiles args rest results examined
      else
        match f.policy.or (if f.regular = true then f.stat else none) with
        | some .other => .error .other
        | some _ => host.searchFiles args rest results examined
        | none =>
            if f.regular = false ∨ searchFileMaxBytes < f.bytes.length then
              host.searchFiles args rest results examined
            else if searchFileLimit ≤ examined then .ok (results, some .fileLimit)
            else
              let (scanned, stopped) := host.scanLines args path 1 f.lines results
              if stopped = true then .ok (scanned, some .resultLimit)
              else if f.fault.map Prod.snd = some .other then .error .other
              else host.searchFiles args rest scanned (examined + 1)

/-- `search`, with what the check of the root raises. -/
def SearchHost.search (host : SearchHost) (args : SearchArgs) (policy : Option FileError)
    (path : List String) (root : SearchEntry) : Except FileError SearchResult :=
  match policy with
  | some e => .error e
  | none => do
      let (results, stopReason) ← host.searchFiles args (root.candidates path) [] 0
      .ok
        { summary := "找到 " ++ toString results.length ++ " 条匹配；" ++
            stopReason.elim "扫描完成" fun reason => "提前停止: " ++ reason.label
          results, complete := stopReason.isNone, stopReason, truncated := stopReason.isSome }

/-! ## What there is to find -/

/-- A file lies in a tree, below directories that the policy admits and that are not excluded.  Unless
`every` is set, each of them can be listed. -/
inductive SearchEntry.Holds (every : Bool) : SearchEntry → List String → SearchFile → Prop where
  | file (f : SearchFile) : Holds every (.file f) [] f
  | here {policy : Option FileError} {listed : Bool} {entries : List (String × SearchEntry)}
      {name : String} {f : SearchFile} : listed = true ∨ every = true → (name, .file f) ∈ entries →
      Holds every (.directory policy listed entries) [name] f
  | deeper {policy : Option FileError} {listed listed' : Bool}
      {entries entries' : List (String × SearchEntry)} {name : String} {rel : List String}
      {f : SearchFile} : listed = true ∨ every = true →
      (name, .directory none listed' entries') ∈ entries → name ∉ searchExcludedDirectories →
      Holds every (.directory none listed' entries') rel f →
      Holds every (.directory policy listed entries) (name :: rel) f

/-- A file that is searched: the policy admits it, it is regular, and it is not too large. -/
def SearchFile.Searched (f : SearchFile) : Prop :=
  f.policy = none ∧ f.regular = true ∧ f.stat = none ∧ f.bytes.length ≤ searchFileMaxBytes

instance : DecidablePred SearchFile.Searched := fun _ => inferInstanceAs (Decidable (_ ∧ _))

/-- The name of the file matches the glob. -/
def SearchHost.Named (host : SearchHost) (args : SearchArgs) (path : List String) : Prop :=
  host.fnmatch (path.getLastD "") (args.glob.getD "*") = true

instance (host : SearchHost) (args : SearchArgs) : DecidablePred (host.Named args) :=
  fun _ => inferInstanceAs (Decidable (_ = _))

/-- The matching lines, numbered. -/
def SearchHost.matchesFrom (host : SearchHost) (args : SearchArgs) (path : List String) :
    Nat → List (List Char) → List SearchMatch
  | _, [] => []
  | lineNo, line :: source =>
      if host.Contains args line then
        host.record path lineNo line :: host.matchesFrom args path (lineNo + 1) source
      else host.matchesFrom args path (lineNo + 1) source

/-- A matching line of a file that can be read so far. -/
def SearchHost.Finds (host : SearchHost) (args : SearchArgs) (path : List String) (root : SearchEntry)
    (m : SearchMatch) : Prop :=
  ∃ rel f, root.Holds false rel f ∧ f.Searched ∧ host.Named args (path ++ rel) ∧
    m ∈ host.matchesFrom args (path ++ rel) 1 f.lines

/-- What a candidate adds to the results. -/
def SearchHost.finds (host : SearchHost) (args : SearchArgs) : Candidate → List SearchMatch
  | .error _ => []
  | .ok (path, f) =>
      if host.Named args path ∧ f.Searched then host.matchesFrom args path 1 f.lines else []

/-- The matching lines in the order of the walk. -/
def SearchHost.found (host : SearchHost) (args : SearchArgs) (path : List String) (root : SearchEntry) :
    List SearchMatch := (root.candidates path).flatMap (host.finds args)

/-! ## The loops -/

variable {host : SearchHost} {args : SearchArgs} {path : List String}

theorem scanLines_eq {lineNo : Nat} {source : List (List Char)} {results : List SearchMatch}
    (room : results.length ≤ args.limit) :
    host.scanLines args path lineNo source results =
      (results ++ (host.matchesFrom args path lineNo source).take (args.limit - results.length),
        decide (args.limit - results.length < (host.matchesFrom args path lineNo source).length)) := by
  induction source generalizing lineNo results with
  | nil => simp [SearchHost.scanLines, SearchHost.matchesFrom]
  | cons line source ih =>
      rw [SearchHost.scanLines, SearchHost.matchesFrom]
      by_cases contains : host.Contains args line
      · rw [if_neg (not_not.mpr contains), if_pos contains]
        by_cases full : args.limit ≤ results.length
        · rw [if_pos full, Nat.sub_eq_zero_of_le full, List.take_zero, List.append_nil]
          simp
        · have longer : (results ++ [host.record path lineNo line]).length = results.length + 1 := by
            simp
          have left : args.limit - results.length =
              args.limit - (results.length + 1) + 1 := by omega
          rw [if_neg full, ih (by omega), longer, left, List.take_succ_cons, List.append_assoc]
          simp
      · rw [if_pos contains, if_neg contains, ih room]

theorem finds_of_not {path : List String} {f : SearchFile}
    (other : ¬(host.Named args path ∧ f.Searched)) : host.finds args (.ok (path, f)) = [] :=
  if_neg other

/-- The loop adds to the results what the candidates have, in their order and up to where it stops. -/
theorem searchFiles_ok {candidates : List Candidate} {results r : List SearchMatch} {examined : Nat}
    {stop : Option StopReason} (room : results.length ≤ args.limit)
    (h : host.searchFiles args candidates results examined = .ok (r, stop)) :
    r.length ≤ args.limit ∧ ∃ more, r = results ++ more ∧
      more <+: candidates.flatMap (host.finds args) ∧
      (stop = none → more = candidates.flatMap (host.finds args)) := by
  induction candidates generalizing results examined with
  | nil =>
      cases h
      exact ⟨room, [], (List.append_nil _).symm, List.prefix_refl _, fun _ => rfl⟩
  | cons c rest ih =>
      cases c with
      | error e => cases h
      | ok visited =>
          obtain ⟨path, f⟩ := visited
          have skip : ¬(host.Named args path ∧ f.Searched) → ∀ k,
              host.searchFiles args rest results k = .ok (r, stop) →
              r.length ≤ args.limit ∧ ∃ more, r = results ++ more ∧
                more <+: (.ok (path, f) :: rest).flatMap (host.finds args) ∧
                (stop = none → more = (.ok (path, f) :: rest).flatMap (host.finds args)) := by
            intro other k h
            rw [List.flatMap_cons, finds_of_not other, List.nil_append]
            exact ih room h
          rw [SearchHost.searchFiles] at h
          split at h
          · rename_i unnamed
            refine skip (fun searched => ?_) _ h
            exact Bool.false_ne_true (unnamed.symm.trans searched.1)
          rename_i named
          have named : host.Named args path := eq_true_of_ne_false named
          split at h
          · cases h
          · rename_i e _ raised
            refine skip (fun searched => ?_) _ h
            obtain ⟨-, policy, -, stat, -⟩ := searched
            rw [policy, stat] at raised
            simp at raised
          rename_i passes
          split at h
          · rename_i unfit
            refine skip (fun searched => ?_) _ h
            obtain ⟨-, -, regular, -, small⟩ := searched
            rcases unfit with unfit | large
            · exact Bool.false_ne_true (unfit.symm.trans regular)
            · exact Nat.not_lt.mpr small large
          rename_i fit
          obtain ⟨regular, small⟩ := not_or.mp fit
          have regular : f.regular = true := eq_true_of_ne_false regular
          rw [if_pos regular, Option.or_eq_none_iff] at passes
          have searched : f.Searched := ⟨passes.1, regular, passes.2, Nat.not_lt.mp small⟩
          have here : host.finds args (.ok (path, f)) = host.matchesFrom args path 1 f.lines :=
            if_pos ⟨named, searched⟩
          rw [List.flatMap_cons, here]
          split at h
          · cases h
            exact ⟨room, [], (List.append_nil _).symm, List.nil_prefix, fun h => by cases h⟩
          rw [scanLines_eq room] at h
          dsimp only at h
          generalize host.matchesFrom args path 1 f.lines = found at h ⊢
          split at h
          · rename_i stopped
            have many : args.limit - results.length < found.length := of_decide_eq_true stopped
            cases h
            refine ⟨?_, _, rfl, ?_, fun h => by cases h⟩
            · rw [List.length_append, List.length_take]
              omega
            · exact (List.take_prefix ..).trans (List.prefix_append ..)
          rename_i goes
          have few : found.length ≤ args.limit - results.length := by simpa using goes
          rw [List.take_of_length_le few] at h
          split at h
          · cases h
          obtain ⟨bound, more, rfl, first, all⟩ := ih (by rw [List.length_append]; omega) h
          refine ⟨bound, found ++ more, List.append_assoc .., ?_, fun stop => ?_⟩
          · exact (List.prefix_append_right_inj found).mpr first
          · rw [all stop]

/-! ## The walk and the tree -/

theorem mem_findEntries {path : List String} {entries : List (String × SearchEntry)} {name : String}
    {found : SearchFound} : (name, found) ∈ findEntries path entries ↔
      ∃ e, (name, e) ∈ entries ∧ found = e.found (path ++ [name]) := by
  induction entries with
  | nil =>
      rw [findEntries]
      exact iff_of_false List.not_mem_nil fun ⟨_, h, _⟩ => List.not_mem_nil h
  | cons entry entries ih =>
      obtain ⟨name', e⟩ := entry
      rw [findEntries, List.mem_cons, ih]
      constructor
      · rintro (same | ⟨e', mem, found⟩)
        · cases same
          exact ⟨e, List.mem_cons_self .., rfl⟩
        · exact ⟨e', List.mem_cons_of_mem _ mem, found⟩
      · rintro ⟨e', mem, found⟩
        rcases List.mem_cons.mp mem with same | mem
        · cases same
          exact .inl (by rw [found])
        · exact .inr ⟨e', mem, found⟩

/-- What is yielded in a directory are its files, and what is yielded below the directories kept. -/
theorem mem_visitDirectory {path : List String} {found : List (String × SearchFound)}
    {visited : List String × SearchFile} : .ok visited ∈ visitDirectory path found ↔
      ∃ name fd, (name, fd) ∈ found ∧
        (.ok visited ∈ fd.files path name ∨ .ok visited ∈ fd.kept name) := by
  have raises : ∀ (name : String) (fd : SearchFound), .ok visited ∉ fd.raised name := by
    intro name fd mem
    unfold SearchFound.raised at mem
    split at mem
    · split at mem <;> simp at mem
    · exact List.not_mem_nil mem
  simp only [visitDirectory, List.mem_append, List.mem_flatMap, List.mem_insertionSort]
  constructor
  · rintro ((⟨e, -, raised⟩ | ⟨e, mem, file⟩) | ⟨e, mem, kept⟩)
    · exact absurd raised (raises e.1 e.2)
    · exact ⟨e.1, e.2, mem, .inl file⟩
    · exact ⟨e.1, e.2, mem, .inr kept⟩
  · rintro ⟨name, fd, mem, file | kept⟩
    · exact .inl (.inr ⟨(name, fd), mem, file⟩)
    · exact .inr ⟨(name, fd), mem, kept⟩

mutual

/-- The generator yields the files that lie in the tree. -/
theorem SearchEntry.mem_candidates : ∀ (e : SearchEntry) (path p : List String) (f : SearchFile),
    .ok (p, f) ∈ e.candidates path ↔ ∃ rel, p = path ++ rel ∧ e.Holds false rel f
  | .file g, path, p, f => by
      rw [candidates, found]
      constructor
      · intro mem
        cases List.mem_singleton.mp mem
        exact ⟨[], (List.append_nil _).symm, .file g⟩
      · rintro ⟨rel, rfl, holds⟩
        cases holds
        rw [List.append_nil]
        exact List.mem_singleton_self _
  | .directory policy listed entries, path, p, f => by
      rw [candidates, found]
      dsimp only
      cases listed with
      | false =>
          refine iff_of_false List.not_mem_nil ?_
          rintro ⟨rel, -, holds⟩
          cases holds with
          | here open' => simp at open'
          | deeper open' => simp at open'
      | true =>
          rw [if_pos rfl, mem_visitDirectory]
          constructor
          · rintro ⟨name, fd, mem, file | kept⟩
            · obtain ⟨e, entry, rfl⟩ := mem_findEntries.mp mem
              cases e with
              | file g =>
                  rw [found] at file
                  cases List.mem_singleton.mp file
                  exact ⟨[name], rfl, .here (.inl rfl) entry⟩
              | directory policy' listed' entries' =>
                  rw [found] at file
                  exact absurd file List.not_mem_nil
            · obtain ⟨e, entry, rfl⟩ := mem_findEntries.mp mem
              cases e with
              | file g =>
                  rw [found] at kept
                  exact absurd kept List.not_mem_nil
              | directory policy' listed' entries' =>
                  have below := SearchEntry.mem_entries entries _ entry (path ++ [name]) p f
                  rw [candidates, found] at below
                  rw [found] at kept
                  cases policy' with
                  | some e => exact absurd kept List.not_mem_nil
                  | none =>
                      rw [SearchFound.kept] at kept
                      split at kept
                      · exact absurd kept List.not_mem_nil
                      · rename_i included
                        obtain ⟨rel, rfl, holds⟩ := below.mp kept
                        exact ⟨name :: rel, by simp, .deeper (.inl rfl) entry included holds⟩
          · rintro ⟨rel, rfl, holds⟩
            cases holds with
            | @here _ _ _ name _ _ mem =>
                refine ⟨name, _, mem_findEntries.mpr ⟨_, mem, rfl⟩, .inl ?_⟩
                rw [found]
                exact List.mem_singleton_self _
            | @deeper _ _ listed' _ entries' name rel _ _ mem included holds =>
                refine ⟨name, _, mem_findEntries.mpr ⟨_, mem, rfl⟩, .inr ?_⟩
                have below := SearchEntry.mem_entries entries _ mem (path ++ [name]) (path ++ name :: rel) f
                rw [candidates, found] at below
                rw [found, SearchFound.kept, if_neg included]
                exact below.mpr ⟨rel, by simp, holds⟩

theorem SearchEntry.mem_entries : ∀ (entries : List (String × SearchEntry)), ∀ x ∈ entries,
    ∀ (path p : List String) (f : SearchFile),
      .ok (p, f) ∈ x.2.candidates path ↔ ∃ rel, p = path ++ rel ∧ x.2.Holds false rel f
  | [], _, mem => absurd mem List.not_mem_nil
  | (name, e) :: entries, x, mem => by
      rcases List.mem_cons.mp mem with same | mem
      · rw [same]
        exact SearchEntry.mem_candidates e
      · exact SearchEntry.mem_entries entries x mem

end

/-- The list of matching lines has those of the files that lie in the tree. -/
theorem mem_found {root : SearchEntry} {m : SearchMatch} :
    m ∈ host.found args path root ↔ host.Finds args path root m := by
  rw [SearchHost.found, List.mem_flatMap]
  constructor
  · rintro ⟨c, mem, finds⟩
    cases c with
    | error e => exact absurd finds List.not_mem_nil
    | ok visited =>
        obtain ⟨p, f⟩ := visited
        obtain ⟨rel, rfl, holds⟩ := (root.mem_candidates path p f).mp mem
        rw [SearchHost.finds] at finds
        split at finds
        · rename_i searched
          exact ⟨rel, f, holds, searched.2, searched.1, finds⟩
        · exact absurd finds List.not_mem_nil
  · rintro ⟨rel, f, holds, searched, named, matching⟩
    refine ⟨.ok (path ++ rel, f), (root.mem_candidates ..).mpr ⟨rel, rfl, holds⟩, ?_⟩
    rw [SearchHost.finds, if_pos ⟨named, searched⟩]
    exact matching

/-- A search that says it is complete has every matching line of the files that lie in directories that
can be listed and that are searched, up to an error of the file.  Another gives a reason, and in every
case the results begin the list of these lines, and are not more than asked for. -/
theorem search_complete (host : SearchHost) (args : SearchArgs) (policy : Option FileError)
    (path : List String) (root : SearchEntry) (r : SearchResult)
    (h : host.search args policy path root = .ok r) :
    (r.complete = true → ∀ m, host.Finds args path root m → m ∈ r.results) ∧
    (r.complete = false → r.stopReason.isSome = true) ∧
    (r.results <+: host.found args path root ∧
      ∀ m, m ∈ host.found args path root ↔ host.Finds args path root m) ∧
    r.results.length ≤ args.limit := by
  cases policy with
  | some e => cases h
  | none =>
      obtain ⟨⟨results, stop⟩, loop, same⟩ := bind_eq_ok.mp h
      cases same
      obtain ⟨bound, more, rfl, first, all⟩ := searchFiles_ok (Nat.zero_le _) loop
      refine ⟨fun complete m finds => ?_, fun stopped => ?_, ⟨first, fun m => mem_found⟩, bound⟩
      · rw [all (Option.isNone_iff_eq_none.mp complete)]
        exact mem_found.mpr finds
      · cases stop with
        | none => cases stopped
        | some reason => rfl

/-! ## Lines that are not found -/

/-- A matching line of a regular file that the policy admits. -/
def SearchHost.Expects (host : SearchHost) (args : SearchArgs) (path : List String) (root : SearchEntry)
    (m : SearchMatch) : Prop :=
  ∃ rel f, root.Holds true rel f ∧ f.policy = none ∧ f.regular = true ∧
    host.Named args (path ++ rel) ∧ m ∈ host.matchesFrom args (path ++ rel) 1 (textLines f.bytes)

/-- A search says it is complete and does not have the line. -/
def SearchHost.Misses (host : SearchHost) (args : SearchArgs) (path : List String) (root : SearchEntry)
    (m : SearchMatch) : Prop :=
  ∃ r, host.search args none path root = .ok r ∧ r.complete = true ∧
    host.Expects args path root m ∧ m ∉ r.results

namespace Sample

/-- A machine whose names and texts are in lower case, and a search without a glob. -/
def finder : SearchHost where
  casefold := id
  fnmatch _ _ := true
  display path := "/".intercalate path

def needle : SearchArgs where
  pattern := ['x']

def plainFile (bytes : Bytes) : SearchFile where
  policy := none
  regular := true
  stat := none
  bytes := bytes
  fault := none

def lineX : Bytes := [0x78, 0x0a]

/-- A file that can be read, and one in a directory that is excluded. -/
def shelves : SearchEntry := .directory none true
  [("node_modules", .directory none true [("b.txt", .file (plainFile lineX))]),
    ("a.txt", .file (plainFile lineX))]

/-- A file one byte too large. -/
def oversized : SearchEntry := .directory none true
  [("big.txt", .file (plainFile (lineX ++ List.replicate (2 * 1024 * 1024 - 1) 0x78)))]

/-- A file that cannot be read. -/
def unreadable : SearchEntry := .directory none true
  [("a.txt", .file { plainFile lineX with fault := some (0, .os) })]

/-- A directory that cannot be listed. -/
def unlisted : SearchEntry := .directory none true
  [("d", .directory none false [("a.txt", .file (plainFile lineX))])]

end Sample

/-- The file that is not excluded has the one match. -/
theorem search_complete_shelves : ∃ r, Sample.finder.search Sample.needle none [] Sample.shelves =
    .ok r ∧ r.complete = true ∧ ⟨"a.txt", 1, ['x'], false⟩ ∈ r.results := by
  cases h : Sample.finder.search Sample.needle none [] Sample.shelves with
  | error e =>
      have ok : (Sample.finder.search Sample.needle none [] Sample.shelves).isOk = true := by decide
      rw [h] at ok
      cases ok
  | ok r =>
      obtain ⟨complete, -⟩ := search_complete Sample.finder Sample.needle none [] Sample.shelves r h
      have whole : (Sample.finder.search Sample.needle none [] Sample.shelves).toOption.any
          (·.complete) = true := by decide
      rw [h] at whole
      refine ⟨r, rfl, whole, complete whole _ ⟨["a.txt"], Sample.plainFile Sample.lineX, ?_, ?_, rfl, ?_⟩⟩
      · exact .here (.inl rfl) (List.mem_cons_of_mem _ (List.mem_cons_self ..))
      · decide
      · decide

/-- The lines of a text that begins with a line of one letter. -/
theorem textLines_lineX (rest : Bytes) : textLines (Sample.lineX ++ rest) =
    ['x', '\n'] :: textLines rest := by
  have bytes : Sample.lineX = encode ['x', '\n'] := by decide
  rw [textLines, textLines, bytes, decodeReplace_encode_append]
  rfl

/-- A file that is too large is passed over. -/
theorem search_large {bytes : Bytes} (large : searchFileMaxBytes < bytes.length) :
    Sample.finder.search Sample.needle none []
        (.directory none true [("big.txt", .file (Sample.plainFile bytes))]) =
      .ok { summary := "找到 " ++ toString 0 ++ " 条匹配；" ++ "扫描完成", results := [], complete := true
            stopReason := none, truncated := false } := by
  have walk : SearchEntry.candidates [] (.directory none true
      [("big.txt", .file (Sample.plainFile bytes))]) = [.ok (["big.txt"], Sample.plainFile bytes)] := rfl
  have loop : Sample.finder.searchFiles Sample.needle [.ok (["big.txt"], Sample.plainFile bytes)] [] 0 =
      .ok ([], none) := by
    rw [SearchHost.searchFiles, if_neg (by decide)]
    exact if_pos (.inr large)
  rw [SearchHost.search, walk, loop]
  rfl

/-- A matching line is lost in a file that is too large, in one that cannot be read, and below a
directory that cannot be listed; and the search says it is complete. -/
theorem search_misses : (∃ m, Sample.finder.Misses Sample.needle [] Sample.oversized m) ∧
    (∃ m, Sample.finder.Misses Sample.needle [] Sample.unreadable m) ∧
    ∃ m, Sample.finder.Misses Sample.needle [] Sample.unlisted m := by
  refine ⟨⟨⟨"big.txt", 1, ['x'], false⟩, ?_⟩, ⟨⟨"a.txt", 1, ['x'], false⟩, ?_⟩,
    ⟨⟨"d/a.txt", 1, ['x'], false⟩, ?_⟩⟩
  · have large : searchFileMaxBytes < (Sample.lineX ++
        List.replicate (2 * 1024 * 1024 - 1) (0x78 : UInt8)).length := by
      rw [List.length_append, List.length_replicate]
      decide
    refine ⟨_, search_large large, rfl, ⟨["big.txt"], _, .here (.inl rfl) (List.mem_cons_self ..), rfl,
      rfl, rfl, ?_⟩, List.not_mem_nil⟩
    rw [Sample.plainFile, textLines_lineX, SearchHost.matchesFrom, if_pos (by decide)]
    exact List.mem_cons.mpr (.inl (by decide))
  · exact ⟨_, rfl, by decide, ⟨["a.txt"], _, .here (.inl rfl) (List.mem_cons_self ..), rfl, rfl, rfl,
      by decide⟩, by decide⟩
  · exact ⟨_, rfl, by decide, ⟨["d", "a.txt"], _, .deeper (.inl rfl) (List.mem_cons_self ..) (by decide)
      (.here (.inr rfl) (List.mem_cons_self ..)), rfl, rfl, rfl, by decide⟩, by decide⟩

end MiHarness
